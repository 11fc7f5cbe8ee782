import Stdb.RESPStream

/-!
# `RESPProtocolParser`

The RESP parser (`protocolparser.cc`).  `parse_next` pushes a chunk and runs `worker()`, which
first reads dictionary arrays (`parse_dict`) and then protocol data units: a series name or a
dictionary id (`parse_ids`), a timestamp (`parse_timestamp`) and the values (`parse_values`),
after which the unit is consumed and one sample per series is written.  Whenever a read finds
its element incomplete the parser returns to the consumed offset (`discard()`) and waits for
the next chunk.

The model keeps the parser's members: the read buffer (as its stream, see `RESPStream`), the
dictionary `idmap_`, the arrays `paramids_`, `values_` and `events_`, and the session with the
calls made on it.  Each parse function returns the parser with the effects it had, also when it
returns `false` (a value written before an incomplete element stays in `values_`).

`idmap_` is a `std::unordered_multimap`, whose iteration order of elements with equal keys the
standard leaves unspecified.  The model follows libstdc++, which inserts an element right before
the first element with an equal key (`multimapInsert`).

`Utility::parse_timestamp` is not among the sources; it is the parameter `parseTs`.
-/

namespace Stdb

namespace RESP

open LogicalStream

/-! ### The dictionary -/

/-- `unordered_multimap<ParamId, ParamId>`, in iteration order. -/
abbrev IdMap := List (ParamId × ParamId)

/-- `idmap_.insert({uid, id})` as libstdc++ performs it: right before the first element with an
equal key, at the end when there is none (where a new key goes is not observable through
`equal_range`). -/
def multimapInsert : IdMap → ParamId × ParamId → IdMap
  | [], e => [e]
  | x :: xs, e => if x.1 = e.1 then e :: x :: xs else x :: multimapInsert xs e

/-- `equal_range(uid)`: the ids stored under `uid`, in iteration order. -/
def equalRange (m : IdMap) (uid : ParamId) : List ParamId :=
  (m.filter fun e => e.1 = uid).map Prod.snd

/-- `update_dict(uid, row, nvalues)`: `false` and no change when `uid` is already a key,
otherwise the ids of `row` inserted one by one under `uid`. -/
def updateDict (m : IdMap) (uid : ParamId) (row : List ParamId) : Bool × IdMap :=
  if m.any fun e => e.1 = uid then (false, m)
  else (true, row.foldl (fun m id => multimapInsert m (uid, id)) m)

/-- `read_dict(uid, row, nvalues)`: the ids copied into `row`; it returns their number. -/
def readDict (m : IdMap) (uid : ParamId) (nvalues : ℕ) : List ParamId :=
  (equalRange m uid).take nvalues

/-! ### The parser's state -/

/-- The members of `RESPProtocolParser` the parser reads and writes, with the session. -/
structure Parser (σ : Type) where
  /-- `rdbuf_`, as its stream. -/
  rdbuf : LogicalStream
  /-- `idmap_`. -/
  idmap : IdMap
  /-- `paramids_[STDB_LIMITS_MAX_ROW_WIDTH]`. -/
  paramids : ℕ → ParamId
  /-- `values_[STDB_LIMITS_MAX_ROW_WIDTH]`. -/
  values : ℕ → Double
  /-- `events_[STDB_LIMITS_MAX_ROW_WIDTH]`. -/
  events : ℕ → List UInt8
  /-- The session's state. -/
  session : σ
  /-- The calls made on the session, in order. -/
  calls : List DbCall

namespace Parser

variable {σ : Type}

/-- A new parser: empty stream and dictionary, `values_` not yet assigned, `events_` empty
strings.  `paramids_` is not initialised either; it is read only after `parse_ids` wrote it, so
the model starts it at `0`. -/
def init (c : σ) : Parser σ :=
  ⟨LogicalStream.empty, [], fun _ => 0, fun _ => .indeterminate, fun _ => [], c, []⟩

/-- `rdbuf_.consume()`. -/
def consume (p : Parser σ) : Parser σ := { p with rdbuf := p.rdbuf.consume }

/-- `rdbuf_.discard()`. -/
def discard (p : Parser σ) : Parser σ := { p with rdbuf := p.rdbuf.discard }

/-- The read buffer moved to `a` by a read. -/
def withBuf (p : Parser σ) (a : LogicalStream) : Parser σ := { p with rdbuf := a }

@[simp] theorem withBuf_rdbuf (p : Parser σ) (a : LogicalStream) : (p.withBuf a).rdbuf = a := rfl
@[simp] theorem consume_rdbuf (p : Parser σ) : p.consume.rdbuf = p.rdbuf.consume := rfl
@[simp] theorem discard_rdbuf (p : Parser σ) : p.discard.rdbuf = p.rdbuf.discard := rfl
@[simp] theorem consume_calls (p : Parser σ) : p.consume.calls = p.calls := rfl
@[simp] theorem discard_calls (p : Parser σ) : p.discard.calls = p.calls := rfl
@[simp] theorem withBuf_calls (p : Parser σ) (a : LogicalStream) :
    (p.withBuf a).calls = p.calls := rfl

end Parser

/-- The ids written into an array from index `0` on. -/
def writeRow (f : ℕ → ParamId) (ids : List ParamId) : ℕ → ParamId := fun i => ids.getD i (f i)

/-- The `ProtocolParserError` thrown with `get_error_context` of a message built at run time. -/
def parserErrorBytes (a : LogicalStream) (msg : List UInt8) : Exception :=
  .protocolParserError (msg ++ ascii " - " ++
    ReadBuffer.escapeCrLf (ReadBuffer.errorFrame (a.data.drop a.consumed) 0)) 0

/-- What one turn of a `while (true)` loop of the parser ends with: the loop goes on from a
state (`next`), or the function returns or throws (`exit`). -/
inductive Turn (σ α : Type)
  | next (p : Parser σ)
  | exit (r : Except Exception α)

section Parse

variable {σ : Type} (lim : Limits) (db : DbSession σ) (parseTs : List UInt8 → Option Timestamp)

/-! ### `parse_ids`, `parse_timestamp` and `parse_values` -/

/-- `parse_ids(stream, paramids_, STDB_LIMITS_MAX_ROW_WIDTH)`: the row width, `none` for
`-1`. -/
def parseIds (p : Parser σ) : Except Exception (Option ℕ × Parser σ) :=
  match nextType p.rdbuf with
  | .again => .ok (none, p)
  | .string =>
    match readString lim.stringLengthMax p.rdbuf with
    | .error e => .error e
    | .ok none => .ok (none, p)
    | .ok (some (name, a)) =>
      let r := db.nameToParamIdList p.session name lim.maxRowWidth
      let p := { p with
        rdbuf := a, session := r.2, calls := p.calls ++ [DbCall.nameToParamIdList name] }
      if r.1 = [] then .error (p.rdbuf.parserError "invalid series name format")
      else .ok (some r.1.length, { p with paramids := writeRow p.paramids r.1 })
  | .integer =>
    match readInt p.rdbuf with
    | .error e => .error e
    | .ok none => .ok (none, p)
    | .ok (some (uid, a)) =>
      let row := readDict p.idmap uid lim.maxRowWidth
      if row = [] then .error (a.parserError "invalid series name format")
      else .ok (some row.length, { p with rdbuf := a, paramids := writeRow p.paramids row })
  | _ => .error (p.rdbuf.parserError "unexpected parameter id format")

/-- `parse_timestamp(stream, sample)`: the timestamp, `none` for `false`.  A string is read
into `tsbuf`, a buffer of 28 bytes, terminated by `tsbuf[bytes_read] = '\0'`, and handed to
`Utility::parse_timestamp`; a string that fills `tsbuf` puts its terminator past the end. -/
def parseTimestamp (p : Parser σ) : Except Exception (Option Timestamp × Parser σ) :=
  match nextType p.rdbuf with
  | .again => .ok (none, p)
  | .integer =>
    match readInt p.rdbuf with
    | .error e => .error e
    | .ok none => .ok (none, p)
    | .ok (some (ts, a)) => .ok (some ts, p.withBuf a)
  | .string =>
    match readString 28 p.rdbuf with
    | .error e => .error e
    | .ok none => .ok (none, p)
    | .ok (some (text, a)) =>
      if 28 ≤ text.length then .error (.outOfBounds "tsbuf" text.length)
      else
      match parseTs text with
      | some ts => .ok (some ts, p.withBuf a)
      | none => .error (a.parserError "unexpected parameter timestamp format")
  | _ => .error (p.rdbuf.parserError "unexpected parameter timestamp format")

/-- The lambda `parse_int_value(at)`: `read_int` into `values[at]`. -/
def parseIntValue (p : Parser σ) (i : ℕ) : Except Exception (Bool × Parser σ) :=
  match readInt p.rdbuf with
  | .error e => .error e
  | .ok none => .ok (false, p)
  | .ok (some (v, a)) =>
    .ok (true, { p with rdbuf := a, values := Function.update p.values i (.ofU64 v) })

/-- The lambda `parse_string_value(at)`: a string of at most 64 bytes read into `buf`,
terminated by `buf[bytes_read] = '\0'` (past the end for a string that fills `buf`) and converted
by `strtod`, which must consume all of it. -/
def parseStringValue (p : Parser σ) (i : ℕ) : Except Exception (Bool × Parser σ) :=
  match readString 64 p.rdbuf with
  | .error e => .error e
  | .ok none => .ok (false, p)
  | .ok (some (text, a)) =>
    if 64 ≤ text.length then .error (.outOfBounds "buf" text.length)
    else
    let v := CLib.strtod text
    if v.2 ≠ text.length then
      .error (parserErrorBytes a (ascii "can't parse double value: " ++ text.takeWhile (· ≠ 0)))
    else .ok (true, { p with rdbuf := a, values := Function.update p.values i v.1 })

/-- The lambda `parse_event_value(at)`: a string, shorter than `STDB_LIMITS_MAX_EVENT_LEN`,
into `events[at]`. -/
def parseEventValue (p : Parser σ) (i : ℕ) : Except Exception (Bool × Parser σ) :=
  match readString lim.stringLengthMax p.rdbuf with
  | .error e => .error e
  | .ok none => .ok (false, p)
  | .ok (some (body, a)) =>
    if lim.maxEventLen ≤ body.length then .error (a.parserError "event value is too big")
    else .ok (true, { p with rdbuf := a, events := Function.update p.events i body })

/-- Element `i` of a value array: an integer or a string for a float series, a string for an
event series. -/
def parseElement (p : Parser σ) (i : ℕ) : Except Exception (Bool × Parser σ) :=
  if isFloatId (p.paramids i) then
    match nextType p.rdbuf with
    | .again => .ok (false, p)
    | .integer => parseIntValue p i
    | .string => parseStringValue p i
    | _ => .error (p.rdbuf.parserError "unexpected parameter value format")
  else
    match nextType p.rdbuf with
    | .string => parseEventValue lim p i
    | .again => .ok (false, p)
    | _ => .error (p.rdbuf.parserError "unexpected event format")

/-- The `for` loop over the elements of a value array, from index `i`, `k` elements left. -/
def valuesLoop (p : Parser σ) (i : ℕ) : ℕ → Except Exception (Bool × Parser σ)
  | 0 => .ok (true, p)
  | k + 1 =>
    match parseElement lim p i with
    | .ok (true, p) => valuesLoop p (i + 1) k
    | r => r

/-- `parse_values(stream, paramids_, values_, events_, nvalues)`.  A single integer is read into
`values[0]` whatever the series; a single string goes to `values[0]` or `events[0]` by the
series' id; an array must have `nvalues` elements. -/
def parseValues (p : Parser σ) (nvalues : ℕ) : Except Exception (Bool × Parser σ) :=
  match nextType p.rdbuf with
  | .again => .ok (false, p)
  | .integer =>
    if nvalues = 1 then parseIntValue p 0
    else .error (p.rdbuf.parserError "array expected (bulk format), integer found")
  | .string =>
    if nvalues = 1 then
      if isFloatId (p.paramids 0) then parseStringValue p 0 else parseEventValue lim p 0
    else .error (p.rdbuf.parserError "array expected (bulk format), string found")
  | .array =>
    match readArraySize p.rdbuf with
    | .error e => .error e
    | .ok none => .ok (false, p)
    | .ok (some (n, a)) =>
      if toInt n ≠ nvalues then
        .error (a.parserError (if toInt n < nvalues then "wrong array size, more values expected"
          else "wrong array size, less values expected"))
      else valuesLoop lim (p.withBuf a) 0 nvalues
  | _ => .error (p.rdbuf.parserError "unexpected parameter value format")

/-! ### The writes -/

/-- The sample written for column `i` of a unit with timestamp `ts`: a float sample of
`values_[i]` when `(i64)paramids_[i] > 0`, otherwise an event whose body is `events_[i]` (its
`float64` field is never assigned). -/
def columnSample (p : Parser σ) (ts : Timestamp) (i : ℕ) : Sample :=
  if isFloatId (p.paramids i) then ⟨p.paramids i, ts, ⟨.float, lim.sizeofSample, p.values i, []⟩⟩
  else ⟨p.paramids i, ts,
    ⟨.event, ((p.events i).length + lim.sizeofSample) % 2 ^ 16, .indeterminate, p.events i⟩⟩

/-- The `for` loop of `worker()` that writes the columns from `i` on, `k` of them left. -/
def writeColumns (p : Parser σ) (ts : Timestamp) (i : ℕ) : ℕ → Except Exception (Parser σ)
  | 0 => .ok p
  | k + 1 =>
    let sample := columnSample lim p ts i
    let w := db.write p.session sample
    if w.1 ≠ .ok then .error (.databaseError w.1)
    else writeColumns { p with session := w.2, calls := p.calls ++ [DbCall.write sample] } ts (i + 1) k

/-! ### `parse_dict` -/

/-- The `for` loop of `parse_dict` over the name–id pairs of a dictionary array, `k` pairs
left: `false` when an element is incomplete. -/
def dictPairs (p : Parser σ) : ℕ → Except Exception (Bool × Parser σ)
  | 0 => .ok (true, p)
  | k + 1 =>
    match nextType p.rdbuf with
    | .again => .ok (false, p)
    | .string =>
      match readString lim.stringLengthMax p.rdbuf with
      | .error e => .error e
      | .ok none => .ok (false, p)
      | .ok (some (name, a)) =>
        let r := db.nameToParamIdList p.session name lim.maxRowWidth
        let p := { p with
          rdbuf := a, session := r.2, calls := p.calls ++ [DbCall.nameToParamIdList name] }
        if r.1 = [] then .error (p.rdbuf.parserError "invalid series name format")
        else
          match nextType p.rdbuf with
          | .again => .ok (false, p)
          | .integer =>
            match readInt p.rdbuf with
            | .error e => .error e
            | .ok none => .ok (false, p)
            | .ok (some (uid, a)) =>
              dictPairs { p with rdbuf := a, idmap := (updateDict p.idmap uid r.1).2 } k
          | _ => .error (p.rdbuf.parserError "unexpected series name format")
    | _ => .error (p.rdbuf.parserError "unexpected series name format")

/-- One turn of `parse_dict`'s loop: a whole dictionary array is read and consumed and the loop
goes on; anything but an array ends the dictionary (`true`), an incomplete one `false`. -/
def dictStep (p : Parser σ) : Turn σ (Bool × Parser σ) :=
  match nextType p.rdbuf with
  | .again => .exit (.ok (false, p.discard))
  | .array =>
    match readArraySize p.rdbuf with
    | .error e => .exit (.error e)
    | .ok none => .exit (.ok (false, p.discard))
    | .ok (some (n, a)) =>
      if n % 2 ≠ 0 then
        .exit (.error (a.parserError "number of elements in the dictionary should be even"))
      else
        match dictPairs lim db (p.withBuf a) (n / 2) with
        | .error e => .exit (.error e)
        | .ok (false, p) => .exit (.ok (false, p.discard))
        | .ok (true, p) => .next p.consume
  | _ => .exit (.ok (true, p.discard))

/-! ### One protocol data unit -/

/-- One turn of `worker()`'s data loop: ids, timestamp and values are parsed, the unit is
consumed and its columns written; an incomplete unit returns to the consumed offset and leaves
the loop. -/
def dataStep (p : Parser σ) : Turn σ (Parser σ) :=
  match parseIds lim db p with
  | .error e => .exit (.error e)
  | .ok (none, p) => .exit (.ok p.discard)
  | .ok (some w, p) =>
    match parseTimestamp parseTs p with
    | .error e => .exit (.error e)
    | .ok (none, p) => .exit (.ok p.discard)
    | .ok (some ts, p) =>
      match parseValues lim p w with
      | .error e => .exit (.error e)
      | .ok (false, p) => .exit (.ok p.discard)
      | .ok (true, p) =>
        match writeColumns lim db p.consume ts 0 w with
        | .error e => .exit (.error e)
        | .ok p => .next p

/-! ### Every loop uses up the stream -/

omit db parseTs in
theorem parseIntValue_behind {p p' : Parser σ} {i : ℕ} {b : Bool}
    (h : parseIntValue p i = .ok (b, p')) : p'.rdbuf.Behind p.rdbuf := by
  unfold parseIntValue at h
  split at h
  · cases h
  · cases h; exact Behind.refl _
  · rename_i hr; cases h; exact (readElement_some hr).behind

omit db parseTs in
theorem parseStringValue_behind {p p' : Parser σ} {i : ℕ} {b : Bool}
    (h : parseStringValue p i = .ok (b, p')) : p'.rdbuf.Behind p.rdbuf := by
  unfold parseStringValue at h
  split at h
  · cases h
  · cases h; exact Behind.refl _
  · rename_i hr
    dsimp only at h
    split at h
    · cases h
    · split at h
      · cases h
      · cases h; exact (readElement_some hr).behind

omit db parseTs in
theorem parseEventValue_behind {p p' : Parser σ} {i : ℕ} {b : Bool}
    (h : parseEventValue lim p i = .ok (b, p')) : p'.rdbuf.Behind p.rdbuf := by
  unfold parseEventValue at h
  split at h
  · cases h
  · cases h; exact Behind.refl _
  · rename_i hr
    split at h
    · cases h
    · cases h; exact (readElement_some hr).behind

omit db parseTs in
theorem parseElement_behind {p p' : Parser σ} {i : ℕ} {b : Bool}
    (h : parseElement lim p i = .ok (b, p')) : p'.rdbuf.Behind p.rdbuf := by
  unfold parseElement at h
  split_ifs at h
  · split at h
    · cases h; exact Behind.refl _
    · exact parseIntValue_behind h
    · exact parseStringValue_behind h
    · cases h
  · split at h
    · exact parseEventValue_behind lim h
    · cases h; exact Behind.refl _
    · cases h

omit db parseTs in
theorem valuesLoop_behind {p p' : Parser σ} {i k : ℕ} {b : Bool}
    (h : valuesLoop lim p i k = .ok (b, p')) : p'.rdbuf.Behind p.rdbuf := by
  induction k generalizing p i with
  | zero => cases h; exact Behind.refl _
  | succ k ih =>
    unfold valuesLoop at h
    split at h
    · rename_i q hq; exact (ih h).trans (parseElement_behind lim hq)
    · exact parseElement_behind lim h

omit parseTs in
/-- A unit's ids always take at least one element. -/
theorem parseIds_past {p p' : Parser σ} {w : ℕ} (h : parseIds lim db p = .ok (some w, p')) :
    p'.rdbuf.Past p.rdbuf := by
  unfold parseIds at h
  split at h
  · cases h
  · split at h
    · cases h
    · cases h
    · rename_i hr
      dsimp only at h
      split_ifs at h
      cases h; exact readElement_some hr
  · split at h
    · cases h
    · cases h
    · rename_i hr
      dsimp only at h
      split_ifs at h
      cases h; exact readElement_some hr
  · cases h

omit parseTs in
/-- Ids not yet complete leave the parser as it was. -/
theorem parseIds_none {p p' : Parser σ} (h : parseIds lim db p = .ok (none, p')) : p' = p := by
  unfold parseIds at h
  split at h
  · cases h; rfl
  · split at h
    · cases h
    · cases h; rfl
    · dsimp only at h; split_ifs at h; cases h
  · split at h
    · cases h
    · cases h; rfl
    · dsimp only at h; split_ifs at h; cases h
  · cases h

omit lim db in
theorem parseTimestamp_behind {p p' : Parser σ} {t : Option Timestamp}
    (h : parseTimestamp parseTs p = .ok (t, p')) : p'.rdbuf.Behind p.rdbuf := by
  unfold parseTimestamp at h
  split at h
  · cases h; exact Behind.refl _
  · split at h
    · cases h
    · cases h; exact Behind.refl _
    · rename_i hr; cases h; exact (readElement_some hr).behind
  · split at h
    · cases h
    · cases h; exact Behind.refl _
    · rename_i hr
      split at h
      · cases h
      · split at h
        · cases h; exact (readElement_some hr).behind
        · cases h
  · cases h

omit db parseTs in
theorem parseValues_behind {p p' : Parser σ} {w : ℕ} {b : Bool}
    (h : parseValues lim p w = .ok (b, p')) : p'.rdbuf.Behind p.rdbuf := by
  unfold parseValues at h
  split at h
  · cases h; exact Behind.refl _
  · split_ifs at h; exact parseIntValue_behind h
  · split_ifs at h
    · exact parseStringValue_behind h
    · exact parseEventValue_behind lim h
  · split at h
    · cases h
    · cases h; exact Behind.refl _
    · rename_i hr
      split_ifs at h
      exact (valuesLoop_behind lim h).trans (readElement_some hr).behind
  · cases h

omit parseTs in
/-- The writes leave the stream alone. -/
theorem writeColumns_rdbuf {p p' : Parser σ} {ts : Timestamp} {i k : ℕ}
    (h : writeColumns lim db p ts i k = .ok p') : p'.rdbuf = p.rdbuf := by
  induction k generalizing p i with
  | zero => cases h; rfl
  | succ k ih =>
    unfold writeColumns at h
    dsimp only at h
    split_ifs at h
    exact (ih h).trans rfl

omit parseTs in
theorem dictPairs_behind {p p' : Parser σ} {k : ℕ} {b : Bool}
    (h : dictPairs lim db p k = .ok (b, p')) : p'.rdbuf.Behind p.rdbuf := by
  induction k generalizing p with
  | zero => cases h; exact Behind.refl _
  | succ k ih =>
    unfold dictPairs at h
    split at h
    · cases h; exact Behind.refl _
    · split at h
      · cases h
      · cases h; exact Behind.refl _
      · rename_i hr
        have hname := (readElement_some hr).behind
        dsimp only at h
        split_ifs at h
        split at h
        · cases h; exact hname
        · split at h
          · cases h
          · cases h; exact hname
          · rename_i hu
            exact (ih h).trans ((readElement_some hu).behind.trans hname)
        · cases h
    · cases h

omit parseTs in
/-- A dictionary array the loop goes on after was read. -/
theorem dictStep_next {p p' : Parser σ} (h : dictStep lim db p = .next p') :
    p'.rdbuf.remaining < p.rdbuf.remaining := by
  unfold dictStep at h
  split at h
  · cases h
  · split at h
    · cases h
    · cases h
    · rename_i hr
      split_ifs at h
      split at h
      · cases h
      · cases h
      · rename_i hq
        cases h
        exact ((dictPairs_behind lim db hq).trans_past (readElement_some hr)).remaining_lt
  · cases h

/-- A unit the loop goes on after was read. -/
theorem dataStep_next {p p' : Parser σ} (h : dataStep lim db parseTs p = .next p') :
    p'.rdbuf.remaining < p.rdbuf.remaining := by
  unfold dataStep at h
  split at h
  · cases h
  · cases h
  · rename_i hi
    split at h
    · cases h
    · cases h
    · rename_i ht
      split at h
      · cases h
      · cases h
      · rename_i hv
        split at h
        · cases h
        · rename_i hw
          cases h
          rw [writeColumns_rdbuf lim db hw]
          exact ((parseValues_behind lim hv).trans
            (parseTimestamp_behind parseTs ht)).trans_past (parseIds_past lim db hi) |>.remaining_lt

/-! ### `worker()` and `parse_next` -/

/-- `parse_dict(stream)`: dictionary arrays are read and consumed until something else follows
(`true`) or the data ends (`false`). -/
def parseDict (p : Parser σ) : Except Exception (Bool × Parser σ) :=
  match h : dictStep lim db p with
  | .next p' => parseDict p'
  | .exit r => r
termination_by p.rdbuf.remaining
decreasing_by exact dictStep_next lim db h

/-- The data loop of `worker()`. -/
def dataLoop (p : Parser σ) : Except Exception (Parser σ) :=
  match h : dataStep lim db parseTs p with
  | .next p' => dataLoop p'
  | .exit r => r
termination_by p.rdbuf.remaining
decreasing_by exact dataStep_next lim db parseTs h

/-- `worker()`: the dictionary, then the units. -/
def worker (p : Parser σ) : Except Exception (Parser σ) :=
  match parseDict lim db p with
  | .error e => .error e
  | .ok (false, p) => .ok p
  | .ok (true, p) => dataLoop lim db parseTs p

/-- `parse_next(buffer, sz)`: the chunk is pushed, then the worker runs. -/
def parseNext (p : Parser σ) (chunk : List UInt8) : Except Exception (Parser σ) :=
  worker lim db parseTs { p with rdbuf := p.rdbuf.push chunk }

/-- The chunks fed one after the other through `get_next_buffer` and `parse_next`; the first
exception ends the run. -/
def feed (p : Parser σ) : List (List UInt8) → Except Exception (Parser σ)
  | [] => .ok p
  | chunk :: chunks => (parseNext lim db parseTs p chunk).bind fun p => feed p chunks

variable {lim db parseTs} {p p' : Parser σ}

theorem parseDict_of_next (h : dictStep lim db p = .next p') :
    parseDict lim db p = parseDict lim db p' := by
  rw [parseDict]; split <;> simp_all

theorem parseDict_of_exit {r : Except Exception (Bool × Parser σ)} (h : dictStep lim db p = .exit r) :
    parseDict lim db p = r := by
  rw [parseDict]; split <;> simp_all

theorem dataLoop_of_next (h : dataStep lim db parseTs p = .next p') :
    dataLoop lim db parseTs p = dataLoop lim db parseTs p' := by
  rw [dataLoop]; split <;> simp_all

theorem dataLoop_of_exit {r : Except Exception (Parser σ)} (h : dataStep lim db parseTs p = .exit r) :
    dataLoop lim db parseTs p = r := by
  rw [dataLoop]; split <;> simp_all

/-! Runs: each lemma takes the turn it starts with and the rest of the run, so that a run on
given bytes is followed one turn at a time, each turn evaluated on its own. -/

theorem parseDict_run {r : Except Exception (Bool × Parser σ)} (h : dictStep lim db p = .next p')
    (h' : parseDict lim db p' = r) : parseDict lim db p = r :=
  (parseDict_of_next h).trans h'

theorem dataLoop_run {r : Except Exception (Parser σ)} (h : dataStep lim db parseTs p = .next p')
    (h' : dataLoop lim db parseTs p' = r) : dataLoop lim db parseTs p = r :=
  (dataLoop_of_next h).trans h'

theorem worker_run {r : Except Exception (Parser σ)} (h : parseDict lim db p = .ok (true, p'))
    (h' : dataLoop lim db parseTs p' = r) : worker lim db parseTs p = r := by
  rw [worker, h]; exact h'

theorem worker_of_parseDict_false (h : parseDict lim db p = .ok (false, p')) :
    worker lim db parseTs p = .ok p' := by
  rw [worker, h]

theorem feed_run {chunk : List UInt8} {chunks : List (List UInt8)} {r : Except Exception (Parser σ)}
    (h : parseNext lim db parseTs p chunk = .ok p') (h' : feed lim db parseTs p' chunks = r) :
    feed lim db parseTs p (chunk :: chunks) = r := by
  rw [feed, h]; exact h'

theorem feed_of_error {chunk : List UInt8} {chunks : List (List UInt8)} {e : Exception}
    (h : parseNext lim db parseTs p chunk = .error e) :
    feed lim db parseTs p (chunk :: chunks) = .error e := by
  rw [feed, h]; rfl

end Parse

end RESP

end Stdb
