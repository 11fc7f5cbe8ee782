import Stdb.Common

/-!
# `ReadBuffer`: the parsers' receive buffer

`ReadBuffer` (`protocolparser.cc`) is the byte buffer both protocol parsers read from.  The
server pulls a region, fills it and pushes it back; the parser reads with `get`, `pick`, `read`
and `read_line`, then either `consume`s what it has parsed or `discard`s a partial read.

The state keeps the source's fields.  `buffer_` is a function from positions to bytes together
with its `size()`, which makes rotation and resizing pointwise; `rpos_`, `wpos_` and `cons_`
are `u32`, and every update of them wraps modulo `2^32` as the source's arithmetic does
(`u32`, `sub32`).  The `assert`s of the source are not part of these functions: the run
semantics of `ReadBufferRefinement` refuses an operation whose assertion fails.

Exceptions are modelled by `Exception`, which keeps the message bytes the source builds with
`get_error_context`.
-/

namespace Stdb

/-- `static_cast<int>` of a `u32` count (two's complement). -/
def toInt (n : ℕ) : ℤ := if n % 2 ^ 32 < 2 ^ 31 then (n % 2 ^ 32 : ℕ) else (n % 2 ^ 32 : ℕ) - 2 ^ 32

/-- The exceptions the parsers throw.  Messages are kept as the bytes the source builds. -/
inductive Exception
  /-- `ProtocolParserError(msg, pos)`. -/
  | protocolParserError (msg : List UInt8) (pos : ℕ)
  /-- `RESPError(msg, pos)`, thrown by `RESPStream`. -/
  | respError (msg : List UInt8) (pos : ℕ)
  /-- `DatabaseError(status)`, thrown when `DbSession::write` fails. -/
  | databaseError (status : Status)
  /-- Not thrown: a write at `index` past the end of the stack array `buffer`, whose behaviour
  C++ leaves undefined.  The model stops the parser there. -/
  | outOfBounds (buffer : String) (index : ℕ)
deriving Repr, DecidableEq

/-- The state of a `ReadBuffer`. -/
structure ReadBuffer where
  /-- `BUFFER_SIZE`, fixed by the constructor. -/
  bufferSize : ℕ
  /-- `buffer_`, byte by byte. -/
  buffer : ℕ → UInt8
  /-- `buffer_.size()`. -/
  size : ℕ
  /-- `rpos_`: the current read position. -/
  rpos : ℕ
  /-- `wpos_`: the current write position. -/
  wpos : ℕ
  /-- `cons_`: the end of the consumed part. -/
  cons : ℕ
  /-- `buffers_allocated_`. -/
  buffersAllocated : ℤ

namespace ReadBuffer

/-- `N_BUF`: the initial size of the buffer in `BUFFER_SIZE` regions. -/
def nBuf : ℕ := 4

/-- The constructor `ReadBuffer(buffer_size)`: `buffer_size * N_BUF` zero bytes. -/
def create (bufferSize : ℕ) : ReadBuffer :=
  { bufferSize := bufferSize, buffer := fun _ => 0, size := bufferSize * nBuf,
    rpos := 0, wpos := 0, cons := 0, buffersAllocated := 0 }

/-- The `n` bytes of `f` from position `a` on. -/
def slice (f : ℕ → UInt8) (a n : ℕ) : List UInt8 := (List.range n).map fun i => f (a + i)

@[simp] theorem length_slice (f : ℕ → UInt8) (a n : ℕ) : (slice f a n).length = n := by
  simp [slice]

theorem slice_add (f : ℕ → UInt8) (a m n : ℕ) :
    slice f a (m + n) = slice f a m ++ slice f (a + m) n := by
  simp only [slice, List.range_add, List.map_append, List.map_map, Function.comp_def,
    Nat.add_assoc]

theorem slice_congr {f g : ℕ → UInt8} {a b n : ℕ} (h : ∀ i < n, f (a + i) = g (b + i)) :
    slice f a n = slice g b n := by
  simp only [slice, List.map_inj_left, List.mem_range]
  exact h

theorem getElem_slice (f : ℕ → UInt8) (a n i : ℕ) (h : i < (slice f a n).length) :
    (slice f a n)[i] = f (a + i) := by
  simp [slice]

theorem take_slice (f : ℕ → UInt8) (a n m : ℕ) (h : m ≤ n) :
    (slice f a n).take m = slice f a m := by
  obtain ⟨k, rfl⟩ := Nat.exists_eq_add_of_le h
  rw [slice_add, List.take_left' (length_slice _ _ _)]

theorem drop_slice (f : ℕ → UInt8) (a n m : ℕ) (h : m ≤ n) :
    (slice f a n).drop m = slice f (a + m) (n - m) := by
  obtain ⟨k, rfl⟩ := Nat.exists_eq_add_of_le h
  rw [slice_add, List.drop_left' (length_slice _ _ _), Nat.add_sub_cancel_left]

/-- The bytes `buffer_[a, a + n)`. -/
def bytes (s : ReadBuffer) (a n : ℕ) : List UInt8 := slice s.buffer a n

/-- The length of the line at the head of `l`, its `'\n'` included, if `l` holds a `'\n'`. -/
def lineEnd : List UInt8 → Option ℕ
  | [] => none
  | c :: cs => if c = nl then some 1 else (lineEnd cs).map (· + 1)

theorem lineEnd_le_length : ∀ {l : List UInt8} {k : ℕ}, lineEnd l = some k → k ≤ l.length
  | [], _, h => by simp [lineEnd] at h
  | c :: cs, k, h => by
    simp only [lineEnd] at h
    split_ifs at h
    · cases h; simp
    · obtain ⟨k', hk', rfl⟩ := Option.map_eq_some'.mp h
      simpa using lineEnd_le_length hk'

theorem lineEnd_pos : ∀ {l : List UInt8} {k : ℕ}, lineEnd l = some k → 0 < k
  | [], _, h => by simp [lineEnd] at h
  | c :: cs, k, h => by
    simp only [lineEnd] at h
    split_ifs at h
    · cases h; exact Nat.one_pos
    · obtain ⟨k', -, rfl⟩ := Option.map_eq_some'.mp h
      exact Nat.succ_pos _

/-! ### Error context -/

/-- The frame `get_error_context` shows: the bytes up to (not including) the third `'\n'`. -/
def errorFrame : List UInt8 → ℕ → List UInt8
  | [], _ => []
  | c :: cs, n => if c = nl then (if n + 1 = 3 then [] else c :: errorFrame cs (n + 1))
      else c :: errorFrame cs n

/-- `replace_all(err, "\r", "\\r")` followed by `replace_all(err, "\n", "\\n")`. -/
def escapeCrLf : List UInt8 → List UInt8
  | [] => []
  | c :: cs => (if c = cr then ascii "\\r" else if c = nl then ascii "\\n" else [c]) ++
      escapeCrLf cs

/-- The message `get_error_context` builds from the unconsumed bytes `[cons_, wpos_)`. -/
def contextMessage (msg : String) (unconsumed : List UInt8) : List UInt8 :=
  ascii msg ++ ascii " - " ++ escapeCrLf (errorFrame unconsumed 0)

/-- `get_error_context(msg)`: the message and position `0`. -/
def getErrorContext (s : ReadBuffer) (msg : String) : List UInt8 × ℕ :=
  (contextMessage msg (s.bytes s.cons (s.wpos - s.cons)), 0)

/-- The `ProtocolParserError` the parsers throw with `get_error_context(msg)`. -/
def parserError (s : ReadBuffer) (msg : String) : Exception :=
  .protocolParserError (s.getErrorContext msg).1 (s.getErrorContext msg).2

/-! ### Reading -/

/-- `get()`: the next byte, or `ProtocolParserError` at the end of the written data. -/
def get (s : ReadBuffer) : Except Exception (UInt8 × ReadBuffer) :=
  if s.rpos = s.wpos then .error (s.parserError "unexpected end of stream")
  else .ok (s.buffer s.rpos, { s with rpos := u32 (s.rpos + 1) })

/-- `pick()`: the next byte without moving. -/
def pick (s : ReadBuffer) : Except Exception UInt8 :=
  if s.rpos = s.wpos then .error (s.parserError "unexpected end of stream")
  else .ok (s.buffer s.rpos)

/-- `is_eof()`. -/
def isEof (s : ReadBuffer) : Bool := s.rpos = s.wpos

/-- `read(buffer, buffer_len)`: the bytes copied out and the new state (the count returned is
their number). -/
def read (s : ReadBuffer) (bufferLen : ℕ) : List UInt8 × ReadBuffer :=
  let toRead := min (u32 bufferLen) (sub32 s.wpos s.rpos)
  (s.bytes s.rpos toRead, { s with rpos := u32 (s.rpos + toRead) })

/-- The end of `read_line` once it has looked at `window`, the first `toRead` available bytes:
the line and its length when `window` holds a `'\n'`, otherwise the whole window and
`-toRead`. -/
def lineResult (s : ReadBuffer) (window : List UInt8) (toRead : ℕ) :
    (List UInt8 × ℤ) × ReadBuffer :=
  match lineEnd window with
  | some n => ((window.take n, toInt n), { s with rpos := u32 (s.rpos + n) })
  | none => ((window, -toInt toRead), s)

/-- `read_line(buffer, quota)`: the bytes copied into `buffer`, the count returned (negative
when no `'\n'` is among the first `quota` available bytes) and the new state. -/
def readLine (s : ReadBuffer) (quota : ℕ) : (List UInt8 × ℤ) × ReadBuffer :=
  let toRead := min (u32 quota) (sub32 s.wpos s.rpos)
  s.lineResult (s.bytes s.rpos toRead) toRead

theorem toInt_of_lt {n : ℕ} (h : n < 2 ^ 31) : toInt n = n := by
  unfold toInt; rw [Nat.mod_eq_of_lt (by omega), if_pos h]

/-- With a quota below `2^31`, a positive count from `read_line` means a line was read: fewer
bytes remain unread. -/
theorem readLine_progress (s : ReadBuffer) {q : ℕ} (hq : q < 2 ^ 31)
    (h : 0 < (s.readLine q).1.2) :
    sub32 (s.readLine q).2.wpos (s.readLine q).2.rpos < sub32 s.wpos s.rpos := by
  have hread : min (u32 q) (sub32 s.wpos s.rpos) ≤ q := by
    rw [u32_of_lt (by omega)]; exact min_le_left _ _
  simp only [readLine, lineResult] at h ⊢
  split at h
  · rename_i n hn
    have h1 := lineEnd_pos hn
    have h2 := lineEnd_le_length hn
    simp only [bytes, length_slice] at h2
    have h3 := min_le_right (u32 q) (sub32 s.wpos s.rpos)
    simp only
    unfold sub32 u32 at *
    omega
  · dsimp only at h; rw [toInt_of_lt (by omega)] at h; omega

theorem lineEnd_append {body : List UInt8} (rest : List UInt8) (h : nl ∉ body) :
    lineEnd (body ++ nl :: rest) = some (body.length + 1) := by
  induction body with
  | nil => simp [lineEnd]
  | cons c cs ih =>
    simp only [List.mem_cons, not_or] at h
    simp [lineEnd, Ne.symm h.1, ih h.2]

/-- A full line at the read position, no longer than the quota, is read whole. -/
theorem readLine_of_line (s : ReadBuffer) {q : ℕ} {body : List UInt8} (hq : q < 2 ^ 32)
    (hnl : nl ∉ body) (hlen : body.length + 1 ≤ q)
    (havail : body.length + 1 ≤ sub32 s.wpos s.rpos)
    (hbytes : s.bytes s.rpos (body.length + 1) = body ++ [nl]) :
    s.readLine q = ((body ++ [nl], toInt (body.length + 1)),
      { s with rpos := u32 (s.rpos + (body.length + 1)) }) := by
  have hmin : body.length + 1 ≤ min (u32 q) (sub32 s.wpos s.rpos) := by
    rw [u32_of_lt hq]; exact le_min hlen havail
  obtain ⟨k, hk⟩ := Nat.exists_eq_add_of_le hmin
  have hwin : s.bytes s.rpos (min (u32 q) (sub32 s.wpos s.rpos)) =
      body ++ nl :: s.bytes (s.rpos + (body.length + 1)) k := by
    rw [hk, bytes, slice_add, ← bytes, hbytes, List.append_assoc]; rfl
  simp only [readLine, lineResult, hwin, lineEnd_append _ hnl]
  rw [show body ++ nl :: s.bytes (s.rpos + (body.length + 1)) k =
    (body ++ [nl]) ++ s.bytes (s.rpos + (body.length + 1)) k by simp, List.take_left' (by simp)]

/-- With nothing left to read, `read_line` returns `0` and changes nothing. -/
theorem readLine_of_eof (s : ReadBuffer) (q : ℕ) (h : sub32 s.wpos s.rpos = 0) :
    s.readLine q = (([], 0), s) := by
  simp [readLine, lineResult, h, bytes, slice, lineEnd, toInt]

theorem lineEnd_eq_none : ∀ {l : List UInt8}, nl ∉ l → lineEnd l = none
  | [], _ => rfl
  | c :: cs, h => by
    simp only [List.mem_cons, not_or] at h
    simp [lineEnd, Ne.symm h.1, lineEnd_eq_none h.2]

/-- No `'\n'` among the first `quota` available bytes: `read_line` returns minus their number and
changes nothing. -/
theorem readLine_of_no_nl (s : ReadBuffer) (q : ℕ)
    (h : nl ∉ s.bytes s.rpos (min (u32 q) (sub32 s.wpos s.rpos))) :
    s.readLine q = ((s.bytes s.rpos (min (u32 q) (sub32 s.wpos s.rpos)),
      -toInt (min (u32 q) (sub32 s.wpos s.rpos))), s) := by
  simp only [readLine, lineResult, lineEnd_eq_none h]

/-- `consume()`: everything read so far is consumed. -/
def consume (s : ReadBuffer) : ReadBuffer := { s with cons := s.rpos }

/-- `discard()`: return to the consumed position, to read a partial frame again. -/
def discard (s : ReadBuffer) : ReadBuffer := { s with rpos := s.cons }

/-! ### Writing -/

/-- The contents of `f` after `chunk` is written at position `p`. -/
def writeAt (f : ℕ → UInt8) (p : ℕ) (chunk : List UInt8) : ℕ → UInt8 :=
  fun i => if p ≤ i ∧ i < p + chunk.length then chunk.getD (i - p) 0 else f i

/-- The rotate branch of `pull`: `std::copy(begin + cons_, end, begin)` and the cursors moved
back by `cons_`. -/
def rotate (s : ReadBuffer) : ReadBuffer :=
  { s with
    buffer := fun i => if i < s.size - s.cons then s.buffer (i + s.cons) else s.buffer i,
    wpos := sub32 s.wpos s.cons, rpos := sub32 s.rpos s.cons, cons := 0 }

/-- The double branch of `pull`: `buffer_.resize(buffer_.size() * 2)`, new bytes zero. -/
def grow (s : ReadBuffer) : ReadBuffer :=
  { s with buffer := fun i => if i < s.size then s.buffer i else 0, size := s.size * 2 }

/-- `pull()`: make at least `BUFFER_SIZE` bytes writable after `wpos_`, by rotating the
unconsumed bytes to the front or by doubling the buffer.  The region handed out starts at
`wpos_`. -/
def pull (s : ReadBuffer) : ReadBuffer :=
  let sz := sub32 (u32 s.size) s.wpos
  let s' := if sz < s.bufferSize then
      if u32 (s.cons + sz) > s.bufferSize then s.rotate else s.grow
    else s
  { s' with buffersAllocated := s.buffersAllocated + 1 }

/-- `push(buffer, size)` after the server wrote `chunk` into the region `pull` handed out. -/
def push (s : ReadBuffer) (chunk : List UInt8) : ReadBuffer :=
  { s with
    buffer := writeAt s.buffer s.wpos chunk, wpos := u32 (s.wpos + chunk.length),
    buffersAllocated := s.buffersAllocated - 1 }

/-! ### What each operation changes -/

theorem slice_writeAt_of_le {f : ℕ → UInt8} {p a n : ℕ} (chunk : List UInt8) (h : a + n ≤ p) :
    slice (writeAt f p chunk) a n = slice f a n :=
  slice_congr fun i hi => by simp only [writeAt]; rw [if_neg (by omega)]

theorem slice_writeAt (f : ℕ → UInt8) (p : ℕ) {chunk : List UInt8} {n : ℕ}
    (h : n ≤ chunk.length) : slice (writeAt f p chunk) p n = chunk.take n := by
  apply List.ext_getElem (by simp; omega)
  intro i h1 h2
  simp only [length_slice] at h1
  rw [getElem_slice, writeAt, if_pos (by omega), Nat.add_sub_cancel_left, List.getElem_take,
    List.getD_eq_getElem?_getD, List.getElem?_eq_getElem (by omega), Option.getD_some]

/-- The bytes a `push` wrote, read back from the old write position. -/
theorem bytes_push (s : ReadBuffer) {chunk : List UInt8} {n : ℕ} (h : n ≤ chunk.length) :
    (s.push chunk).bytes s.wpos n = chunk.take n :=
  slice_writeAt _ _ h

/-- A `push` leaves the bytes before the old write position as they were. -/
theorem bytes_push_of_le (s : ReadBuffer) (chunk : List UInt8) {a n : ℕ} (h : a + n ≤ s.wpos) :
    (s.push chunk).bytes a n = s.bytes a n :=
  slice_writeAt_of_le chunk h

/-- The bytes from `a` across the old write position after a `push`: those that were there, then
the chunk. -/
theorem bytes_push_append (s : ReadBuffer) {chunk : List UInt8} {a n m : ℕ} (ha : a + n = s.wpos)
    (hm : m ≤ chunk.length) : (s.push chunk).bytes a (n + m) = s.bytes a n ++ chunk.take m := by
  rw [bytes, slice_add, ← bytes, ← bytes, bytes_push_of_le s chunk ha.le, ha, bytes_push s hm]

@[simp] theorem consume_cons (s : ReadBuffer) : s.consume.cons = s.rpos := rfl
@[simp] theorem consume_rpos (s : ReadBuffer) : s.consume.rpos = s.rpos := rfl
@[simp] theorem consume_wpos (s : ReadBuffer) : s.consume.wpos = s.wpos := rfl
@[simp] theorem consume_buffer (s : ReadBuffer) : s.consume.buffer = s.buffer := rfl
@[simp] theorem discard_rpos (s : ReadBuffer) : s.discard.rpos = s.cons := rfl
@[simp] theorem discard_cons (s : ReadBuffer) : s.discard.cons = s.cons := rfl
@[simp] theorem discard_wpos (s : ReadBuffer) : s.discard.wpos = s.wpos := rfl
@[simp] theorem discard_buffer (s : ReadBuffer) : s.discard.buffer = s.buffer := rfl

@[simp] theorem push_wpos (s : ReadBuffer) (c : List UInt8) :
    (s.push c).wpos = u32 (s.wpos + c.length) := rfl
@[simp] theorem push_rpos (s : ReadBuffer) (c : List UInt8) : (s.push c).rpos = s.rpos := rfl
@[simp] theorem push_size (s : ReadBuffer) (c : List UInt8) : (s.push c).size = s.size := rfl
@[simp] theorem push_bufferSize (s : ReadBuffer) (c : List UInt8) :
    (s.push c).bufferSize = s.bufferSize := rfl
@[simp] theorem push_buffersAllocated (s : ReadBuffer) (c : List UInt8) :
    (s.push c).buffersAllocated = s.buffersAllocated - 1 := rfl
@[simp] theorem pull_buffersAllocated (s : ReadBuffer) :
    s.pull.buffersAllocated = s.buffersAllocated + 1 := rfl

/-- `pull` changes nothing but the allocation counter when `BUFFER_SIZE` bytes are free. -/
theorem pull_of_room {s : ReadBuffer} (h : ¬ sub32 (u32 s.size) s.wpos < s.bufferSize) :
    s.pull = { s with buffersAllocated := s.buffersAllocated + 1 } := by
  simp only [pull, if_neg h]

theorem wpos_pull_of_room {s : ReadBuffer} (h : ¬ sub32 (u32 s.size) s.wpos < s.bufferSize) :
    s.pull.wpos = s.wpos := by
  rw [pull_of_room h]

theorem bytes_pull_of_room {s : ReadBuffer} (h : ¬ sub32 (u32 s.size) s.wpos < s.bufferSize)
    (a n : ℕ) : s.pull.bytes a n = s.bytes a n := by
  rw [pull_of_room h]; rfl

/-- `pull` with the `u32` arithmetic evaluated: below `2^32` no quantity wraps. -/
theorem pull_eq {s : ReadBuffer} (hs : s.size < 2 ^ 32) (hw : s.wpos ≤ s.size)
    (hc : s.cons ≤ s.wpos) :
    s.pull =
      { (if s.size - s.wpos < s.bufferSize then
          if s.bufferSize < s.cons + (s.size - s.wpos) then s.rotate else s.grow
        else s) with buffersAllocated := s.buffersAllocated + 1 } := by
  have hsz : sub32 (u32 s.size) s.wpos = s.size - s.wpos := by
    rw [u32_of_lt hs, sub32_of_le hw hs]
  have hcs : u32 (s.cons + (s.size - s.wpos)) = s.cons + (s.size - s.wpos) :=
    u32_of_lt (by omega)
  simp only [pull, hsz, hcs, gt_iff_lt]

theorem size_le_pull (s : ReadBuffer) : s.size ≤ s.pull.size := by
  simp only [pull]
  split_ifs <;> simp only [rotate, grow, le_refl]
  omega

end ReadBuffer

end Stdb
