import Stdb.RESPRetry
import Stdb.RESPWorker

/-!
# Where the stream is cut into chunks does not change what is written

`get_next_buffer` hands the RESP parser the bytes of a connection in chunks, wherever the socket
happened to split them, and `parse_next` runs `worker()` on each.  A run over the whole stream in
one chunk and a run over the same bytes cut into chunks are compared here.

The comparison holds in one direction.  When the stream in one chunk is parsed without an
exception, the same stream in any chunks is too, and the two runs end in the same state with the
same samples written, in the same order (`feed_of_feed_flatten`); the only difference is that the
run in chunks may look names up more than once.  The converse fails: a dictionary array that
follows units is rejected in one chunk and read as a dictionary when a chunk starts with it
(`feed_late_dictionary_split`).

The session's name lookups are assumed not to change its state (`DbSession.LookupPure`), as for
a session that resolves names from a fixed table.  The steps:

* one `parse_next` after a partial one is, up to the lookups, the run on the longer stream
  (`worker_resume`), from the retries of `RESPRetry` and the settled parses of `RESPPush`;
* a run that threw on a stream throws on a longer one (`worker_push_error`), so a run in one
  chunk without an exception has its prefixes run without one;
* induction over the chunks.

Modules outside the parser (the server loop, the session's other calls) are outside this model.
-/

namespace Stdb

namespace RESP

open LogicalStream

section Resume

variable {σ : Type} (lim : Limits) (db : DbSession σ) (parseTs : List UInt8 → Option Timestamp)
  (v : List UInt8) {p t u r : Parser σ}

omit parseTs in
/-- `parse_dict` stopped inside a dictionary array: run again on the longer stream, it is
`parse_dict` on the longer stream, up to the lookups. -/
theorem parseDict_retry (hpure : db.LookupPure) (hb : p.rdbuf.Boundary)
    (h : parseDict lim db p = .ok (false, u)) :
    ExceptRel OutEquiv (parseDict lim db (u.push v)) (parseDict lim db (p.push v)) := by
  induction p using parseDict.induct lim db with
  | case1 p p' ht ih =>
    rw [parseDict_of_next ht] at h
    have hs := dictStep_push lim db v hb.valid (by rw [ht]; trivial)
    have hr := dictStep_rests lim db hb.valid
    rw [ht] at hs hr
    rw [parseDict_of_next hs]
    exact ih hr h
  | case2 p r ht =>
    rw [parseDict_of_exit ht] at h
    subst h
    exact parseDict_of_turnRel lim db (dictStep_retry lim db v hpure hb ht)

/-- A data unit cannot start with an array: the data loop rejects it. -/
theorem dataStep_of_array (hk : nextType p.rdbuf = .array) :
    dataStep lim db parseTs p = .exit (.error (p.rdbuf.parserError "unexpected parameter id format")) := by
  rw [dataStep_eq]
  simp only [parseIds, hk]
  rfl

/-- At a boundary with no array next, `worker()` is its data loop: `parse_dict` returns at once. -/
theorem worker_of_not_array (hb : p.rdbuf.Boundary) (hk : nextType p.rdbuf ≠ .array) :
    worker lim db parseTs p = dataLoop lim db parseTs p := by
  have hp : p.discard = p := by simp only [Parser.discard, hb.discard_eq]
  by_cases ha : nextType p.rdbuf = .again
  · have hd : dictStep lim db p = .exit (.ok (false, p)) := by
      simp only [dictStep, ha, hp]
    have hs : dataStep lim db parseTs p = .exit (.ok p) := by
      simp only [dataStep, parseIds, ha, hp]
    rw [worker_of_parseDict_false (parseDict_of_exit hd), dataLoop_of_exit hs]
  · have hd : dictStep lim db p = .exit (.ok (true, p)) := by
      unfold dictStep
      cases hn : nextType p.rdbuf
      case again => exact absurd hn ha
      case array => exact absurd hn hk
      all_goals simp only [hp]
    exact worker_run (parseDict_of_exit hd) rfl

/-- A turn of the data loop that stopped leaves the stream where the turn started. -/
theorem dataStep_exit_rdbuf (hb : p.rdbuf.Boundary) (h : dataStep lim db parseTs p = .exit (.ok u)) :
    u.rdbuf = p.rdbuf := by
  rcases dataStep_exit_ok lim db parseTs h with ⟨-, rfl⟩ | ⟨w, p₁, h₁, ⟨h₂, rfl⟩ | ⟨ts, p₂, p₃, h₂, h₃, rfl⟩⟩
  · exact hb.discard_eq
  · exact (parseIds_past lim db h₁).behind.discard_eq hb
  · exact ((parseValues_behind lim h₃).trans ((parseTimestamp_behind parseTs h₂).trans
      (parseIds_past lim db h₁).behind)).discard_eq hb

/-- The data loop stopped at a chunk boundary: the next `parse_next` is, up to the lookups, the
data loop on the longer stream, when that runs without an exception. -/
theorem dataLoop_resume (hpure : db.LookupPure) (hb : t.rdbuf.Boundary)
    (h : dataLoop lim db parseTs t = .ok u) (h' : dataLoop lim db parseTs (t.push v) = .ok r) :
    ∃ r', worker lim db parseTs (u.push v) = .ok r' ∧ r'.Equiv r := by
  induction t using dataLoop.induct lim db parseTs with
  | case1 t t' ht ih =>
    rw [dataLoop_of_next ht] at h
    have hs := dataStep_push lim db parseTs v hb.valid (by rw [ht]; trivial)
    have hr := dataStep_rests lim db parseTs hb.valid
    rw [ht] at hs hr
    rw [dataLoop_of_next hs] at h'
    exact ih hr h h'
  | case2 t r₀ ht =>
    rw [dataLoop_of_exit ht] at h
    subst h
    have hu : u.rdbuf = t.rdbuf := dataStep_exit_rdbuf lim db parseTs hb ht
    -- the longer stream does not go on with an array, or its run would throw
    have ha : nextType (u.push v).rdbuf ≠ .array := fun ha => by
      rw [Parser.push_rdbuf, hu] at ha
      rw [dataLoop_of_exit (dataStep_of_array lim db parseTs (p := t.push v) ha)] at h'
      cases h'
    rw [worker_of_not_array lim db parseTs ((hu ▸ hb).push v) ha]
    have hrel := dataLoop_of_turnRel lim db parseTs (dataStep_retry lim db parseTs v hpure hb ht)
    rw [h'] at hrel
    exact hrel.exists_ok

/-- One `parse_next` after another: the second, on the state the first left, is the run of the
first on the longer stream, up to the lookups, when that runs without an exception. -/
theorem worker_resume (hpure : db.LookupPure) (hb : p.rdbuf.Boundary)
    (h : worker lim db parseTs p = .ok u) (h' : worker lim db parseTs (p.push v) = .ok r) :
    ∃ r', worker lim db parseTs (u.push v) = .ok r' ∧ r'.Equiv r := by
  unfold worker at h
  rcases hd : parseDict lim db p with e | ⟨_ | _, t⟩ <;> rw [hd] at h
  · cases h
  · cases h
    have hrel := worker_of_parseDict_rel lim db parseTs (parseDict_retry lim db v hpure hb hd)
    rw [h'] at hrel
    exact hrel.exists_ok
  · have hp := (parseDict_push lim db v hb.valid (by rw [hd]; rfl)).ok hd
    rw [worker_run hp rfl] at h'
    exact dataLoop_resume lim db parseTs v hpure (parseDict_rests lim db hb.valid hd) h h'

end Resume

/-! ### Runs over chunks -/

section Chunks

variable {σ : Type} (lim : Limits) (db : DbSession σ) (parseTs : List UInt8 → Option Timestamp)

theorem Parser.push_push (p : Parser σ) (a b : List UInt8) : (p.push a).push b = p.push (a ++ b) := by
  simp [Parser.push, LogicalStream.push, List.append_assoc]

theorem feed_singleton (p : Parser σ) (chunk : List UInt8) :
    feed lim db parseTs p [chunk] = worker lim db parseTs (p.push chunk) := by
  show (worker lim db parseTs (p.push chunk)).bind (fun p => .ok p) = _
  cases worker lim db parseTs (p.push chunk) <;> rfl

omit lim db parseTs in
theorem Parser.init_boundary (c : σ) : (Parser.init c).rdbuf.Boundary := ⟨rfl, le_rfl⟩

/-- A stream parsed in one chunk without an exception is parsed without one in any chunks, to
the same state up to the lookups in the log: the same samples are written, in the same order. -/
theorem feed_of_feed_flatten (hpure : db.LookupPure) (c : σ) (cs : List (List UInt8)) {r : Parser σ}
    (h : feed lim db parseTs (Parser.init c) [cs.flatten] = .ok r) :
    ∃ r', feed lim db parseTs (Parser.init c) cs = .ok r' ∧ r'.Equiv r := by
  induction cs using List.reverseRecOn generalizing r with
  | nil =>
    have h₀ : feed lim db parseTs (Parser.init c) [[].flatten] = .ok (Parser.init c) :=
      feed_run (worker_of_parseDict_false (parseDict_of_exit rfl)) rfl
    rw [h₀] at h
    cases h
    exact ⟨_, rfl, .refl _⟩
  | append_singleton cs chunk ih =>
    have hs : ((Parser.init c).push cs.flatten).rdbuf.Boundary := (Parser.init_boundary c).push _
    simp only [List.flatten_append, List.flatten_cons, List.flatten_nil, List.append_nil] at h
    rw [feed_singleton, ← Parser.push_push] at h
    -- the prefix in one chunk ran without an exception too
    rcases hw : worker lim db parseTs ((Parser.init c).push cs.flatten) with e | u
    · obtain ⟨e', he'⟩ := worker_push_error lim db parseTs chunk hs.valid hw
      rw [he'] at h
      cases h
    obtain ⟨u', hu', hequ⟩ := ih (by rw [feed_singleton, hw])
    obtain ⟨r₁, hr₁, hequ₁⟩ := worker_resume lim db parseTs chunk hpure hs hw h
    have hrel := worker_equiv lim db parseTs (hequ.push chunk)
    rw [hr₁] at hrel
    obtain ⟨r', hr', hequ'⟩ := hrel.exists_ok
    refine ⟨r', ?_, hequ'.trans hequ₁⟩
    rw [feed_append, hu']
    exact (feed_singleton lim db parseTs u' chunk).trans hr'

end Chunks

end RESP

end Stdb
