import Stdb.ReadBuffer
import Stdb.CLib

/-!
# `OpenTSDBProtocolParser`

The OpenTSDB telnet parser (`protocolparser.cc`).  `parse_next` pushes a chunk into the read
buffer and runs `worker()`, which reads lines with `read_line` into a stack buffer of
`LIMITS_MAX_SNAME + 46` bytes and dispatches on the command.  A `put` line

    put <metric> <timestamp> <value> <tags>

is rearranged in place with `std::rotate` into `<metric> <tags> <timestamp> <value>` so that the
series name is one run of bytes, then the timestamp and the value are converted and the sample
is written.

The line buffer is a list of bytes; a pointer into it is the suffix it points to, and a count
the length of a suffix.  The session the parser writes to is any `DbSession`, whose calls the
model records in order, and `Utility::parse_timestamp`, which is not among the sources, is a
parameter.  Both C strings the put branch hands to a library function without a terminator
(`parse_timestamp` and `strtod`) run on into bytes left in the line buffer by earlier lines; the
model gives them the bytes up to the end of the line.  `strtod` never reads past the space that
ends the value field, so for it the two agree.
-/

namespace Stdb

namespace OpenTSDB

/-- `OpenTSDBMessageType`. -/
inductive MessageType
  | put
  | rollup
  | histogram
  | stats
  | version
  | help
  | dropcaches
  | unknown
deriving Repr, DecidableEq

/-- `std::equal(p, p + n, word)`: the first `n` bytes of the line are those of `word`. -/
def isWord (n : ℕ) (word : String) (p : List UInt8) : Bool := p.take n = (ascii word).take n

/-- `is_put(p)`: the first four bytes, read as a little-endian `u32`, are `0x20747570`, the
bytes of `"put "`. -/
def isPut (p : List UInt8) : Bool := p.take 4 = ascii "put "

/-- `is_rollup(p)`. -/
def isRollup : List UInt8 → Bool := isWord 6 "rollup"

/-- `is_histogram(p)`. -/
def isHistogram : List UInt8 → Bool := isWord 4 "hist"

/-- `is_stats(p)`. -/
def isStats : List UInt8 → Bool := isWord 5 "stats"

/-- `is_version(p)`. -/
def isVersion : List UInt8 → Bool := isWord 7 "version"

/-- `is_help(p)`. -/
def isHelp : List UInt8 → Bool := isWord 4 "help"

/-- `is_dropcaches(p)`. -/
def isDropcaches : List UInt8 → Bool := isWord 10 "dropcaches"

/-- `message_dispatch(p, len)`. -/
def messageDispatch (p : List UInt8) (len : ℕ) : MessageType :=
  if 4 ≤ len ∧ isPut p then .put
  else if 6 ≤ len ∧ isRollup p then .rollup
  else if 4 ≤ len ∧ isHistogram p then .histogram
  else if 5 ≤ len ∧ isStats p then .stats
  else if 7 ≤ len ∧ isVersion p then .version
  else if 4 ≤ len ∧ isHelp p then .help
  else if 10 ≤ len ∧ isDropcaches p then .dropcaches
  else .unknown

/-- A separator of `skip_element`: `' '` or `'\n'`. -/
def isSep (c : UInt8) : Bool := c = space ∨ c = nl

/-- `skip_element(buffer, len)` on the `len` bytes from `buffer`: the bytes after the element and
the separators that follow it, and the number of those separators. -/
def skipElement (p : List UInt8) : List UInt8 × ℕ :=
  let rest := p.dropWhile fun c => !isSep c
  (rest.dropWhile isSep, (rest.takeWhile isSep).length)

/-- `std::rotate(first, first + k, last)` on the bytes `[first, last)`. -/
def rotate (l : List UInt8) (k : ℕ) : List UInt8 := l.drop k ++ l.take k

/-- `from_unix_time(ts)`: seconds since the epoch, in nanoseconds. -/
def fromUnixTime (ts : ℕ) : Timestamp := ts * 10 ^ 9

/-- The response `worker()` returns: `none` for the empty `result`, otherwise the body. -/
abbrev Response := Option (List UInt8)

/-- The body of the fake `stats` response. -/
def statsBody : List UInt8 := ascii "stdb.rpcs 1479600574 0 type=fake\n"

/-- The body of the `version` response. -/
def versionBody : List UInt8 :=
  ascii "net.opentsdb.tools BuildData built at revision a000000\nSTDB to TSD converter/n"

/-- The size of the worker's line buffer: `LIMITS_MAX_SNAME + 3 + 17 + 26`. -/
def lineBufferLen (lim : Limits) : ℕ := lim.maxSname + 3 + 17 + 26

theorem lineBufferLen_lt (lim : Limits) : lineBufferLen lim < 2 ^ 31 := by
  have := lim.maxSname_lt; unfold lineBufferLen; omega

section Worker

variable {σ : Type} (lim : Limits) (db : DbSession σ)
  (parseTimestamp : List UInt8 → Option Timestamp)

/-- The timestamp block of the `put` branch on `pbuf`, the bytes from the timestamp field on,
whose first `eix` bytes are the field: `strtoull` on the field; a result below `0xFFFFFFFF` is
taken as seconds; a zero result falls back to `Utility::parse_timestamp(pbuf)`. -/
def decodeTimestamp (pbuf : List UInt8) (eix : ℕ) : Option Timestamp :=
  let result := CLib.strtoull (pbuf.take eix)
  if result = 0 then parseTimestamp pbuf
  else some (if result < 0xFFFFFFFF then fromUnixTime result else result)

/-- A timestamp field that starts with a digit `1`–`9` is read by `strtoull` alone: the
fallback to `parse_timestamp` never runs, whatever it would return. -/
theorem decodeTimestamp_of_digit {pbuf : List UInt8} {eix : ℕ} {d : UInt8} {rest : List UInt8}
    (h : pbuf.take eix = d :: rest) (hd : 49 ≤ d.toNat ∧ d.toNat ≤ 57) :
    decodeTimestamp parseTimestamp pbuf eix =
      some (if CLib.strtoull (d :: rest) < 0xFFFFFFFF then fromUnixTime (CLib.strtoull (d :: rest))
        else CLib.strtoull (d :: rest)) := by
  simp only [decodeTimestamp, h, if_neg (CLib.strtoull_pos hd).ne']

/-- The end of the `put` branch, once the line is rearranged: `series_to_param_id` on `name`;
the timestamp from `pts`, the bytes from the timestamp field on, the field being its first `eix`
bytes; the value by `strtod` on `pval`, which must consume `tix` bytes; then the write.
`sample.payload.size` is not assigned on this path; the model puts `0` there. -/
def putSample (s : ReadBuffer) (c : σ) (calls : List DbCall) (name pts : List UInt8) (eix : ℕ)
    (pval : List UInt8) (tix : ℕ) : Except Exception (σ × List DbCall) :=
  let r := db.seriesToParamId c name
  let calls := calls ++ [.seriesToParamId name]
  if r.1 ≠ .ok then .error (s.parserError "put: invalid series name format")
  else
  match decodeTimestamp parseTimestamp pts eix with
  | none => .error (s.parserError "put: invalid timestamp format")
  | some timestamp =>
    let value := CLib.strtod pval
    if value.2 ≠ tix then .error (s.parserError "put: bad floating point value")
    else
    let sample : Sample := ⟨r.2.1, timestamp, ⟨.float, 0, value.1, []⟩⟩
    let w := db.write r.2.2 sample
    if w.1 ≠ .ok then .error (.databaseError w.1) else .ok (w.2, calls ++ [.write sample])

/-- The `put` branch of `worker()` on `line`, the `len` bytes `read_line` copied (the `'\n'`
included); `s` is the read buffer, which the branch reads only for error contexts.  The spaces
after `"put "` are skipped, the metric, the timestamp and the value are skipped with
`skip_element`, and `std::rotate(a, b, pend)` moves the tags before the timestamp. -/
def putCommand (s : ReadBuffer) (c : σ) (calls : List DbCall) (line : List UInt8) :
    Except Exception (σ × List DbCall) :=
  let pbuf := (line.drop 4).dropWhile (· = space)
  let a := (skipElement pbuf).1
  if a = [] then
    .error (s.parserError "put: illegal argument: not enough arguments (need least 4, got 0)")
  else
  let metricSize := pbuf.length - a.length
  let b := (skipElement a).1
  let timestampTrailing := (skipElement a).2
  let timestampSize := a.length - b.length
  if b = [] then
    .error (s.parserError "put: illegal argument: not enough arguments (need least 4, got 1)")
  else
  let tags := (skipElement b).1
  let valueTrailing := (skipElement b).2
  let valueSize := b.length - tags.length
  if tags = [] then
    .error (s.parserError "put: illegal argument: not enough arguments (need least 4, got 2)")
  else
  let nameSize := tags.length + metricSize
  let tagsTrailing := (tags.tail.reverse.takeWhile isSep).length
  let buf := pbuf.take metricSize ++ rotate a (a.length - tags.length)
  let pts := buf.drop nameSize
  putSample db parseTimestamp s c calls (buf.take (nameSize - tagsTrailing)) pts
    (timestampSize - timestampTrailing) (pts.drop timestampSize) (valueSize - valueTrailing)

/-- What one turn of `worker()`'s loop ends with: the loop goes on from a state (`next`), or
`worker()` returns a response or throws (`exit`). -/
inductive Turn (σ : Type)
  | next (s : ReadBuffer) (c : σ) (calls : List DbCall)
  | exit (r : Except Exception (Response × ReadBuffer × σ × List DbCall))

/-- The body of `worker()`'s loop after `read_line` returned `len > 0` bytes `line`, `s` being
the read buffer after the read: the switch on `message_dispatch(line, len)`.  The `put` branch
consumes the line; the other commands `continue` without `consume()`. -/
def turn (s : ReadBuffer) (c : σ) (calls : List DbCall) (line : List UInt8) (len : ℕ) : Turn σ :=
  match messageDispatch line len with
  | .put =>
    match putCommand db parseTimestamp s c calls line with
    | .ok (c, calls) => .next s.consume c calls
    | .error e => .exit (.error e)
  | .stats => .exit (.ok (some statsBody, s, c, calls))
  | .version => .exit (.ok (some versionBody, s, c, calls))
  | .unknown => .exit (.error (s.parserError "unknown command: nosuchcommand.  Try `help'."))
  | _ => .next s c calls

/-- A turn that goes on leaves the read and write positions where the read left them. -/
theorem turn_next {s s' : ReadBuffer} {c c' : σ} {calls calls' : List DbCall} {line : List UInt8}
    {len : ℕ} (h : turn db parseTimestamp s c calls line len = .next s' c' calls') :
    s'.rpos = s.rpos ∧ s'.wpos = s.wpos := by
  unfold turn at h
  split at h
  · split at h
    · cases h; exact ⟨rfl, rfl⟩
    · cases h
  all_goals first | (cases h; exact ⟨rfl, rfl⟩) | cases h

/-- One turn of `worker()`'s loop: `read_line` into the line buffer; without a full line the
loop is left with the empty response, otherwise the line's `turn` runs. -/
def step (s : ReadBuffer) (c : σ) (calls : List DbCall) : Turn σ :=
  let r := s.readLine (lineBufferLen lim)
  if r.1.2 ≤ 0 then .exit (.ok (none, r.2, c, calls))
  else turn db parseTimestamp r.2 c calls r.1.1 r.1.2.toNat

/-- A turn that goes on has read a line: fewer bytes are left unread. -/
theorem step_next {s s' : ReadBuffer} {c c' : σ} {calls calls' : List DbCall}
    (h : step lim db parseTimestamp s c calls = .next s' c' calls') :
    sub32 s'.wpos s'.rpos < sub32 s.wpos s.rpos := by
  unfold step at h
  dsimp only at h
  split at h
  · cases h
  · obtain ⟨h1, h2⟩ := turn_next db parseTimestamp h
    rw [h1, h2]
    exact s.readLine_progress (lineBufferLen_lt lim) (by omega)

/-- `worker()`: the response, the read buffer, the session's state and its calls, or the
exception thrown.  The `while (true)` loop runs `step` until a turn leaves it. -/
def worker (s : ReadBuffer) (c : σ) (calls : List DbCall) :
    Except Exception (Response × ReadBuffer × σ × List DbCall) :=
  match h : step lim db parseTimestamp s c calls with
  | .next s' c' calls' => worker s' c' calls'
  | .exit res => res
termination_by sub32 s.wpos s.rpos
decreasing_by exact step_next lim db parseTimestamp h

/-- `parse_next(buffer, sz)`: the chunk is pushed, then the worker runs. -/
def parseNext (s : ReadBuffer) (c : σ) (calls : List DbCall) (chunk : List UInt8) :
    Except Exception (Response × ReadBuffer × σ × List DbCall) :=
  worker lim db parseTimestamp (s.push chunk) c calls

/-! ### The turns of the loop -/

variable {lim db parseTimestamp} {s : ReadBuffer} {c : σ} {calls : List DbCall}

theorem worker_of_step_next {s' : ReadBuffer} {c' : σ} {calls' : List DbCall}
    (h : step lim db parseTimestamp s c calls = .next s' c' calls') :
    worker lim db parseTimestamp s c calls = worker lim db parseTimestamp s' c' calls' := by
  rw [worker]; split <;> simp_all

theorem worker_of_step_exit {res : Except Exception (Response × ReadBuffer × σ × List DbCall)}
    (h : step lim db parseTimestamp s c calls = .exit res) :
    worker lim db parseTimestamp s c calls = res := by
  rw [worker]; split <;> simp_all

/-- No full line left: the worker returns the empty response. -/
theorem worker_of_nonpos (h : (s.readLine (lineBufferLen lim)).1.2 ≤ 0) :
    worker lim db parseTimestamp s c calls =
      .ok (none, (s.readLine (lineBufferLen lim)).2, c, calls) :=
  worker_of_step_exit (by simp only [step, if_pos h])

/-- Nothing left to read: the worker returns the empty response. -/
theorem worker_of_eof (h : sub32 s.wpos s.rpos = 0) :
    worker lim db parseTimestamp s c calls = .ok (none, s, c, calls) := by
  have heof := s.readLine_of_eof (lineBufferLen lim) h
  have h0 : (s.readLine (lineBufferLen lim)).1.2 ≤ 0 := by simp [heof]
  rw [worker_of_nonpos h0, heof]

/-- No `'\n'` within the line buffer's reach: the worker returns the empty response and leaves
the read buffer as it was. -/
theorem worker_of_no_nl
    (h : nl ∉ s.bytes s.rpos (min (u32 (lineBufferLen lim)) (sub32 s.wpos s.rpos))) :
    worker lim db parseTimestamp s c calls = .ok (none, s, c, calls) := by
  have hq := lineBufferLen_lt lim
  have hread := s.readLine_of_no_nl (lineBufferLen lim) h
  have hmin : min (u32 (lineBufferLen lim)) (sub32 s.wpos s.rpos) < 2 ^ 31 := by
    rw [u32_of_lt (by omega)]; omega
  rw [worker_of_nonpos (by rw [hread, ReadBuffer.toInt_of_lt hmin]; exact Int.neg_nonpos_of_nonneg (Int.ofNat_nonneg _)), hread]

/-- A line whose turn goes on: the loop continues from the state the turn left. -/
theorem worker_of_next {s' : ReadBuffer} {c' : σ} {calls' : List DbCall}
    (h : 0 < (s.readLine (lineBufferLen lim)).1.2)
    (ht : turn db parseTimestamp (s.readLine (lineBufferLen lim)).2 c calls
      (s.readLine (lineBufferLen lim)).1.1 (s.readLine (lineBufferLen lim)).1.2.toNat =
        .next s' c' calls') :
    worker lim db parseTimestamp s c calls = worker lim db parseTimestamp s' c' calls' :=
  worker_of_step_next (by simp only [step, if_neg (Int.not_le.mpr h), ht])

/-- A line whose turn leaves the loop: `worker()` returns what the turn gives. -/
theorem worker_of_exit {res : Except Exception (Response × ReadBuffer × σ × List DbCall)}
    (h : 0 < (s.readLine (lineBufferLen lim)).1.2)
    (ht : turn db parseTimestamp (s.readLine (lineBufferLen lim)).2 c calls
      (s.readLine (lineBufferLen lim)).1.1 (s.readLine (lineBufferLen lim)).1.2.toNat = .exit res) :
    worker lim db parseTimestamp s c calls = res :=
  worker_of_step_exit (by simp only [step, if_neg (Int.not_le.mpr h), ht])

/-- A `put` line: the put branch runs; when it succeeds the line is consumed and the loop goes
on. -/
theorem worker_of_put (h : 0 < (s.readLine (lineBufferLen lim)).1.2)
    (hput : messageDispatch (s.readLine (lineBufferLen lim)).1.1
      (s.readLine (lineBufferLen lim)).1.2.toNat = .put) :
    worker lim db parseTimestamp s c calls =
      (putCommand db parseTimestamp (s.readLine (lineBufferLen lim)).2 c calls
        (s.readLine (lineBufferLen lim)).1.1).bind fun r =>
          worker lim db parseTimestamp (s.readLine (lineBufferLen lim)).2.consume r.1 r.2 := by
  cases hp : putCommand db parseTimestamp (s.readLine (lineBufferLen lim)).2 c calls
    (s.readLine (lineBufferLen lim)).1.1 with
  | error e => exact worker_of_exit h (by simp only [turn, hput, hp]; rfl)
  | ok r => exact worker_of_next h (by simp only [turn, hput, hp])

/-- A full `put` line at the read position that fits the line buffer is read and handed to the
put branch. -/
theorem worker_of_put_line {body : List UInt8} (hnl : nl ∉ body)
    (hfit : body.length + 1 ≤ lineBufferLen lim) (havail : body.length + 1 ≤ sub32 s.wpos s.rpos)
    (hbytes : s.bytes s.rpos (body.length + 1) = body ++ [nl]) (hput : isPut (body ++ [nl])) :
    worker lim db parseTimestamp s c calls =
      (putCommand db parseTimestamp { s with rpos := u32 (s.rpos + (body.length + 1)) } c calls
        (body ++ [nl])).bind fun r =>
          worker lim db parseTimestamp
            { s with rpos := u32 (s.rpos + (body.length + 1)) }.consume r.1 r.2 := by
  have hlt := lineBufferLen_lt lim
  have hline := s.readLine_of_line (q := lineBufferLen lim) (by omega) hnl hfit havail hbytes
  have hlen : toInt (body.length + 1) = ((body.length + 1 : ℕ) : ℤ) :=
    ReadBuffer.toInt_of_lt (by omega)
  have h4 : 4 ≤ body.length + 1 := by
    have h := congrArg List.length (of_decide_eq_true hput)
    have : (ascii "put ").length = 4 := by decide
    simp only [List.length_take, List.length_append, List.length_singleton] at h; omega
  rw [worker_of_put (by rw [hline, hlen]; exact Int.ofNat_pos.mpr (Nat.succ_pos _))
    (by rw [hline, hlen, Int.toNat_ofNat,
    messageDispatch, if_pos ⟨h4, hput⟩]), hline]

/-- A `rollup`, `hist`, `help` or `dropcaches` line is skipped: the loop goes on without
consuming it. -/
theorem worker_of_ignored (h : 0 < (s.readLine (lineBufferLen lim)).1.2)
    (hign : messageDispatch (s.readLine (lineBufferLen lim)).1.1
      (s.readLine (lineBufferLen lim)).1.2.toNat ∈ [.rollup, .histogram, .help, .dropcaches]) :
    worker lim db parseTimestamp s c calls =
      worker lim db parseTimestamp (s.readLine (lineBufferLen lim)).2 c calls := by
  simp only [List.mem_cons, List.mem_singleton, List.not_mem_nil, or_false] at hign
  exact worker_of_next h (by rcases hign with h' | h' | h' | h' <;> simp only [turn, h'])

/-- A `rollup` line is read and skipped but never consumed: on a new parser, `parse_next` with
the chunk `"rollup\n"` returns normally with `cons_ = 0` while `rpos_ = wpos_ = 7`. -/
theorem parseNext_rollup_unconsumed (lim : Limits) (db : DbSession σ)
    (parseTimestamp : List UInt8 → Option Timestamp) (c : σ) :
    ∃ s, parseNext lim db parseTimestamp (ReadBuffer.create 0x1000).pull c [] (ascii "rollup\n") =
      .ok (none, s, c, []) ∧ s.cons = 0 ∧ s.rpos = 7 ∧ s.wpos = 7 := by
  let s₁ := (ReadBuffer.create 0x1000).pull.push (ascii "rollup\n")
  let s₂ := { s₁ with rpos := u32 (s₁.rpos + ((ascii "rollup").length + 1)) }
  have hline : s₁.readLine (lineBufferLen lim) = ((ascii "rollup" ++ [nl], toInt 7), s₂) :=
    s₁.readLine_of_line (by have := lineBufferLen_lt lim; omega) (by decide)
      (by have : (ascii "rollup").length = 6 := by decide
          unfold lineBufferLen; omega) (by decide) (by decide)
  have hrun : parseNext lim db parseTimestamp (ReadBuffer.create 0x1000).pull c []
      (ascii "rollup\n") = .ok (none, s₂, c, []) := by
    rw [parseNext, worker_of_ignored (by rw [hline]; decide) (by rw [hline]; decide), hline,
      worker_of_eof (by decide)]
  exact ⟨s₂, hrun, rfl, by decide, by decide⟩

end Worker

end OpenTSDB

end Stdb
