import Stdb.ReadBuffer

/-!
# `ReadBuffer` refines an unbounded byte stream with three cursors

The abstract model of the buffer is `LogicalStream`: every byte ever pushed, in order, with a
consumed offset `C` and a read offset `R`.  `Refines s a` says that the bytes
`buffer_[cons_, wpos_)` of the buffer are the stream from `C` to its end and that
`rpos_ - cons_ = R - C`; it also carries the bounds the concrete operations need.

Operations run through `ReadBuffer.step`, which refuses an operation whose `assert` fails or
that breaks the pull-then-push protocol (a push larger than `BUFFER_SIZE`, or without a pull).
The main results:

* `step_refines` / `run_refines`: one operation, then a whole run, keeps `Refines` and returns
  exactly what the stream returns, provided `buffer_.size()` stays below `2^32`;
* `readBuffer_refines_logicalStream`: every protocol run from the constructor is such a run;
* `readBuffer_wraps_past_four_gib`: without the size bound the `u32` cursors wrap and `get`
  reports an empty buffer while the stream still holds `2^32` unread bytes.
-/

namespace Stdb

namespace ReadBuffer

/-- An operation of the buffer's interface. -/
inductive Op
  | pull
  | push (chunk : List UInt8)
  | get
  | pick
  | isEof
  | read (bufferLen : ℕ)
  | readLine (quota : ℕ)
  | consume
  | discard

/-- What an operation returns to its caller. -/
inductive Output
  | unit
  | byte (r : Except Exception UInt8)
  | eof (b : Bool)
  | bytes (b : List UInt8)
  | line (b : List UInt8) (n : ℤ)

/-- One operation; `none` when an `assert` of the source fails or the push protocol is broken. -/
def step (s : ReadBuffer) : Op → Option (ReadBuffer × Output)
  | .pull => if s.buffersAllocated = 0 then some (s.pull, .unit) else none
  | .push c =>
    if s.buffersAllocated = 1 ∧ c.length ≤ s.bufferSize then some (s.push c, .unit) else none
  | .get => some (match s.get with
    | .ok (b, s') => (s', .byte (.ok b))
    | .error e => (s, .byte (.error e)))
  | .pick => some (s, .byte s.pick)
  | .isEof => some (s, .eof s.isEof)
  | .read n => if n < 2 ^ 32 then some ((s.read n).2, .bytes (s.read n).1) else none
  | .readLine q =>
    if q < 2 ^ 32 then some ((s.readLine q).2, .line (s.readLine q).1.1 (s.readLine q).1.2)
    else none
  | .consume => if s.buffersAllocated = 0 then some (s.consume, .unit) else none
  | .discard => if s.buffersAllocated = 0 then some (s.discard, .unit) else none

/-- A sequence of operations, with the outputs in order. -/
def run (s : ReadBuffer) : List Op → Option (ReadBuffer × List Output)
  | [] => some (s, [])
  | op :: ops => match s.step op with
    | none => none
    | some (s', o) => (run s' ops).map fun r => (r.1, o :: r.2)

end ReadBuffer

/-- The logical stream a `ReadBuffer` stands for: all pushed bytes, the consumed offset `C`
and the read offset `R`. -/
structure LogicalStream where
  data : List UInt8
  consumed : ℕ
  readPos : ℕ

namespace LogicalStream

open ReadBuffer

/-- The stream before any push. -/
def empty : LogicalStream := ⟨[], 0, 0⟩

/-- The error a read at the end of the stream reports, built from the unconsumed bytes. -/
def eofError (a : LogicalStream) : Exception :=
  .protocolParserError (contextMessage "unexpected end of stream" (a.data.drop a.consumed)) 0

/-- The operations on the stream. -/
def step (a : LogicalStream) : Op → LogicalStream × Output
  | .pull => (a, .unit)
  | .push c => ({ a with data := a.data ++ c }, .unit)
  | .get => if a.readPos < a.data.length
      then ({ a with readPos := a.readPos + 1 }, .byte (.ok (a.data.getD a.readPos 0)))
      else (a, .byte (.error a.eofError))
  | .pick => (a, if a.readPos < a.data.length then .byte (.ok (a.data.getD a.readPos 0))
      else .byte (.error a.eofError))
  | .isEof => (a, .eof (a.readPos = a.data.length))
  | .read n =>
    let b := (a.data.drop a.readPos).take n
    ({ a with readPos := a.readPos + b.length }, .bytes b)
  | .readLine q =>
    let w := (a.data.drop a.readPos).take q
    match lineEnd w with
    | some k => ({ a with readPos := a.readPos + k }, .line (w.take k) (toInt k))
    | none => (a, .line w (-toInt w.length))
  | .consume => ({ a with consumed := a.readPos }, .unit)
  | .discard => ({ a with readPos := a.consumed }, .unit)

/-- A sequence of operations on the stream. -/
def run (a : LogicalStream) : List Op → LogicalStream × List Output
  | [] => (a, [])
  | op :: ops =>
    let r := (a.step op).1.run ops
    (r.1, (a.step op).2 :: r.2)

end LogicalStream

namespace ReadBuffer

/-- The simulation relation: the unconsumed bytes of the buffer are the stream from `C` on,
with the same read offset, and the buffer has the room the next push needs. -/
structure Refines (s : ReadBuffer) (a : LogicalStream) : Prop where
  cons_le_rpos : s.cons ≤ s.rpos
  rpos_le_wpos : s.rpos ≤ s.wpos
  wpos_le_size : s.wpos ≤ s.size
  bufferSize_le_size : s.bufferSize ≤ s.size
  room : s.buffersAllocated = 1 → s.wpos + s.bufferSize ≤ s.size
  consumed_le_readPos : a.consumed ≤ a.readPos
  readPos_le_length : a.readPos ≤ a.data.length
  read_offset : s.rpos - s.cons = a.readPos - a.consumed
  write_offset : s.wpos - s.cons = a.data.length - a.consumed
  contents : s.bytes s.cons (s.wpos - s.cons) = a.data.drop a.consumed

variable {s : ReadBuffer} {a : LogicalStream}

/-! ### Slices and writes -/

theorem take_slice_min (f : ℕ → UInt8) (p n m : ℕ) :
    (slice f p n).take m = slice f p (min m n) := by
  rcases le_total m n with h | h
  · rw [take_slice f p n m h, min_eq_left h]
  · rw [List.take_of_length_le (by simpa using h), min_eq_right h]

theorem slice_writeAt_below (f : ℕ → UInt8) (c : List UInt8) {p q n : ℕ} (h : q + n ≤ p) :
    slice (writeAt f p c) q n = slice f q n :=
  slice_congr fun i hi => by simp only [writeAt]; rw [if_neg (by omega)]

theorem slice_writeAt_self (f : ℕ → UInt8) (c : List UInt8) (p : ℕ) :
    slice (writeAt f p c) p c.length = c := by
  apply List.ext_getElem (by simp)
  intro i h₁ h₂
  rw [getElem_slice]
  simp only [writeAt, Nat.le_add_right, Nat.add_lt_add_iff_left, h₂, and_self, if_true,
    Nat.add_sub_cancel_left, List.getD_eq_getElem?_getD, List.getElem?_eq_getElem h₂,
    Option.getD_some]

theorem size_readLine (s : ReadBuffer) (q : ℕ) : (s.readLine q).2.size = s.size := by
  simp only [ReadBuffer.readLine, lineResult]; split <;> rfl

/-! ### Consequences of the relation -/

theorem Refines.avail (h : Refines s a) : s.wpos - s.rpos = a.data.length - a.readPos :=
  calc s.wpos - s.rpos = (s.wpos - s.cons) - (s.rpos - s.cons) :=
        (Nat.sub_sub_sub_cancel_right h.cons_le_rpos).symm
    _ = (a.data.length - a.consumed) - (a.readPos - a.consumed) := by
        rw [h.write_offset, h.read_offset]
    _ = a.data.length - a.readPos := Nat.sub_sub_sub_cancel_right h.consumed_le_readPos

/-- The unread bytes of the buffer are the stream from `R` on. -/
theorem Refines.unread (h : Refines s a) :
    s.bytes s.rpos (s.wpos - s.rpos) = a.data.drop a.readPos := by
  have hd := congrArg (List.drop (s.rpos - s.cons)) h.contents
  rwa [bytes, drop_slice _ _ _ _ (Nat.sub_le_sub_right h.rpos_le_wpos _),
    Nat.add_sub_cancel' h.cons_le_rpos, Nat.sub_sub_sub_cancel_right h.cons_le_rpos,
    List.drop_drop, h.read_offset, Nat.add_sub_cancel' h.consumed_le_readPos] at hd

/-- A window of at most `n` unread bytes is the stream's next `n` bytes. -/
theorem Refines.window (h : Refines s a) (n : ℕ) :
    s.bytes s.rpos (min n (s.wpos - s.rpos)) = (a.data.drop a.readPos).take n := by
  rw [← h.unread]; unfold bytes; rw [take_slice_min]

theorem Refines.byte (h : Refines s a) (hr : s.rpos ≠ s.wpos) :
    s.buffer s.rpos = a.data.getD a.readPos 0 := by
  have hlt : a.readPos < a.data.length := by have := h.avail; have := h.rpos_le_wpos; omega
  have h1 := congrArg (fun l => l.getD 0 0) h.unread
  simp only [bytes, List.getD_eq_getElem?_getD, List.getElem?_drop, Nat.add_zero] at h1
  rw [List.getElem?_eq_getElem (by simp; have := h.rpos_le_wpos; omega), getElem_slice,
    Nat.add_zero, Option.getD_some] at h1
  simpa [List.getD_eq_getElem?_getD] using h1

theorem Refines.error (h : Refines s a) (msg : String) :
    s.parserError msg = .protocolParserError (contextMessage msg (a.data.drop a.consumed)) 0 := by
  simp only [parserError, getErrorContext, h.contents]

/-! ### One operation -/

theorem Refines.pull (h : Refines s a) (hsize : s.pull.size < 2 ^ 32) :
    Refines s.pull a := by
  have hs := lt_of_le_of_lt (size_le_pull s) hsize
  have hc := le_trans h.cons_le_rpos h.rpos_le_wpos
  have := h.wpos_le_size; have := h.bufferSize_le_size; have := h.rpos_le_wpos
  rw [pull_eq hs h.wpos_le_size hc] at hsize ⊢
  split_ifs with h1 h2
  · -- rotate: the unconsumed bytes move to the front, in order
    have hw : sub32 s.wpos s.cons = s.wpos - s.cons := sub32_of_le hc (by omega)
    have hr : sub32 s.rpos s.cons = s.rpos - s.cons := sub32_of_le h.cons_le_rpos (by omega)
    refine ⟨?_, ?_, ?_, h.bufferSize_le_size, fun _ => ?_, h.consumed_le_readPos,
      h.readPos_le_length, ?_, ?_, ?_⟩ <;> simp only [rotate, hw, hr, Nat.sub_zero, bytes]
    · exact Nat.zero_le _
    · exact Nat.sub_le_sub_right h.rpos_le_wpos _
    · exact le_trans (Nat.sub_le _ _) h.wpos_le_size
    · omega
    · exact h.read_offset
    · exact h.write_offset
    · rw [← h.contents]
      exact slice_congr fun i hi => by rw [if_pos (by omega), Nat.zero_add, Nat.add_comm]
  · -- double: the old bytes stay where they are
    refine ⟨h.cons_le_rpos, h.rpos_le_wpos, ?_, ?_, fun _ => ?_, h.consumed_le_readPos,
      h.readPos_le_length, h.read_offset, h.write_offset, ?_⟩ <;> simp only [grow, bytes]
    iterate 3 omega
    rw [← h.contents]
    exact slice_congr fun i hi => by rw [if_pos (by omega)]
  · exact ⟨h.cons_le_rpos, h.rpos_le_wpos, h.wpos_le_size, h.bufferSize_le_size,
      fun _ => Nat.add_le_of_le_sub' h.wpos_le_size (Nat.not_lt.mp h1), h.consumed_le_readPos, h.readPos_le_length, h.read_offset,
      h.write_offset, h.contents⟩

theorem Refines.push (h : Refines s a) {c : List UInt8} (hba : s.buffersAllocated = 1)
    (hc : c.length ≤ s.bufferSize) (hs : s.size < 2 ^ 32) :
    Refines (s.push c) { a with data := a.data ++ c } := by
  have := h.room hba; have := h.rpos_le_wpos; have := h.readPos_le_length
  have hcw : s.cons ≤ s.wpos := le_trans h.cons_le_rpos h.rpos_le_wpos
  have hca : a.consumed ≤ a.data.length := le_trans h.consumed_le_readPos h.readPos_le_length
  have hw : u32 (s.wpos + c.length) = s.wpos + c.length := u32_of_lt (by omega)
  refine ⟨h.cons_le_rpos, ?_, ?_, h.bufferSize_le_size,
    fun h1 => absurd h1 (by simp [ReadBuffer.push, hba]), h.consumed_le_readPos, ?_, h.read_offset,
    ?_, ?_⟩ <;> simp only [ReadBuffer.push, hw, List.length_append, Nat.sub_add_comm hcw]
  iterate 3 omega
  · rw [Nat.sub_add_comm hca, h.write_offset]
  · -- the old bytes stay below `wpos_`, the chunk lands on it
    rw [bytes, slice_add, slice_writeAt_below _ _ (by omega), Nat.add_sub_cancel' hcw,
      slice_writeAt_self, List.drop_append_of_le_length hca, ← h.contents]
    rfl

/-- Reading `n` more bytes moves both read offsets by `n`. -/
theorem Refines.advance (h : Refines s a) {n : ℕ} (hn : s.rpos + n ≤ s.wpos) (hs : s.size < 2 ^ 32) :
    Refines { s with rpos := u32 (s.rpos + n) } { a with readPos := a.readPos + n } := by
  have := h.avail; have := h.wpos_le_size; have := h.readPos_le_length; have := h.rpos_le_wpos
  rw [u32_of_lt (by omega)]
  exact ⟨le_trans h.cons_le_rpos (Nat.le_add_right _ _), hn, h.wpos_le_size, h.bufferSize_le_size,
    h.room, le_trans h.consumed_le_readPos (Nat.le_add_right _ _), by simp only; omega,
    by simp only [Nat.sub_add_comm h.cons_le_rpos, Nat.sub_add_comm h.consumed_le_readPos,
      h.read_offset], h.write_offset, h.contents⟩

theorem Refines.consume (h : Refines s a) : Refines s.consume { a with consumed := a.readPos } := by
  have := h.avail
  exact ⟨le_refl _, h.rpos_le_wpos, h.wpos_le_size, h.bufferSize_le_size, h.room, le_refl _,
    h.readPos_le_length, by simp, by simpa using this, by simpa using h.unread⟩

theorem Refines.discard (h : Refines s a) : Refines s.discard { a with readPos := a.consumed } :=
  ⟨le_refl _, le_trans h.cons_le_rpos h.rpos_le_wpos, h.wpos_le_size, h.bufferSize_le_size,
    h.room, le_refl _, le_trans h.consumed_le_readPos h.readPos_le_length, by simp,
    h.write_offset, h.contents⟩

theorem Refines.read_eq (h : Refines s a) {n : ℕ} (hn : n < 2 ^ 32) (hs : s.size < 2 ^ 32) :
    s.read n = ((a.data.drop a.readPos).take n,
      { s with rpos := u32 (s.rpos + ((a.data.drop a.readPos).take n).length) }) := by
  have hav := h.avail; have := h.rpos_le_wpos; have := h.wpos_le_size
  rw [ReadBuffer.read, u32_of_lt hn, sub32_of_le h.rpos_le_wpos (by omega), h.window]
  simp only [List.length_take, List.length_drop, hav]

theorem Refines.readLine_eq (h : Refines s a) {q : ℕ} (hq : q < 2 ^ 32) (hs : s.size < 2 ^ 32) :
    s.readLine q = s.lineResult ((a.data.drop a.readPos).take q)
      ((a.data.drop a.readPos).take q).length := by
  have hav := h.avail; have := h.wpos_le_size
  have hlen : min q (s.wpos - s.rpos) = ((a.data.drop a.readPos).take q).length := by
    rw [List.length_take, List.length_drop, hav]
  have hn : min (u32 q) (sub32 s.wpos s.rpos) = ((a.data.drop a.readPos).take q).length := by
    rw [u32_of_lt hq, sub32_of_le h.rpos_le_wpos (by omega), hlen]
  have hw : s.bytes s.rpos ((a.data.drop a.readPos).take q).length =
      (a.data.drop a.readPos).take q := by
    rw [← hlen]; exact h.window q
  rw [ReadBuffer.readLine, hn, hw]

/-- One operation keeps the relation and returns what the stream returns, as long as the
buffer stays below `2^32` bytes. -/
theorem step_refines {op : Op} {s' : ReadBuffer} {o : Output} (h : Refines s a)
    (hstep : s.step op = some (s', o)) (hsize : s'.size < 2 ^ 32) :
    Refines s' (a.step op).1 ∧ o = (a.step op).2 := by
  have hlen := h.avail; have := h.rpos_le_wpos; have := h.readPos_le_length
  cases op with
  | pull =>
    simp only [step, Option.ite_none_right_eq_some, Option.some.injEq, Prod.mk.injEq] at hstep
    obtain ⟨-, rfl, rfl⟩ := hstep
    exact ⟨h.pull hsize, rfl⟩
  | push c =>
    simp only [step, Option.ite_none_right_eq_some, Option.some.injEq, Prod.mk.injEq] at hstep
    obtain ⟨⟨hba, hc⟩, rfl, rfl⟩ := hstep
    exact ⟨h.push hba hc hsize, rfl⟩
  | get =>
    simp only [step, ReadBuffer.get, Option.some.injEq] at hstep
    split_ifs at hstep with hr
    · obtain ⟨rfl, rfl⟩ := Prod.mk.inj hstep
      have ha : a.step .get = (a, .byte (.error a.eofError)) :=
        if_neg (show ¬ a.readPos < a.data.length by omega)
      rw [ha, LogicalStream.eofError, ← h.error]
      exact ⟨h, rfl⟩
    · obtain ⟨rfl, rfl⟩ := Prod.mk.inj hstep
      have ha : a.step .get = ({ a with readPos := a.readPos + 1 },
          .byte (.ok (a.data.getD a.readPos 0))) :=
        if_pos (show a.readPos < a.data.length by omega)
      rw [ha, ← h.byte hr]
      exact ⟨h.advance (by omega) hsize, rfl⟩
  | pick =>
    simp only [step, Option.some.injEq, Prod.mk.injEq] at hstep
    obtain ⟨rfl, rfl⟩ := hstep
    refine ⟨h, ?_⟩
    simp only [ReadBuffer.pick, LogicalStream.step]
    by_cases hr : s.rpos = s.wpos
    · rw [if_pos hr, if_neg (show ¬ a.readPos < a.data.length by omega), h.error]; rfl
    · rw [if_neg hr, if_pos (show a.readPos < a.data.length by omega), h.byte hr]
  | isEof =>
    simp only [step, Option.some.injEq, Prod.mk.injEq] at hstep
    obtain ⟨rfl, rfl⟩ := hstep
    refine ⟨h, ?_⟩
    simp only [LogicalStream.step, ReadBuffer.isEof, Output.eof.injEq, decide_eq_decide]
    omega
  | read n =>
    simp only [step, Option.ite_none_right_eq_some, Option.some.injEq, Prod.mk.injEq] at hstep
    obtain ⟨hn, rfl, rfl⟩ := hstep
    rw [h.read_eq hn hsize]
    exact ⟨h.advance (by simp only [List.length_take, List.length_drop]; omega) hsize, rfl⟩
  | readLine q =>
    simp only [step, Option.ite_none_right_eq_some, Option.some.injEq, Prod.mk.injEq] at hstep
    obtain ⟨hq, rfl, rfl⟩ := hstep
    rw [size_readLine] at hsize
    rw [h.readLine_eq hq hsize]
    simp only [LogicalStream.step, lineResult]
    cases hk : lineEnd ((a.data.drop a.readPos).take q) with
    | none => exact ⟨h, rfl⟩
    | some k =>
      have := lineEnd_le_length hk
      simp only [List.length_take, List.length_drop] at this
      exact ⟨h.advance (by omega) hsize, rfl⟩
  | consume =>
    simp only [step, Option.ite_none_right_eq_some, Option.some.injEq, Prod.mk.injEq] at hstep
    obtain ⟨-, rfl, rfl⟩ := hstep
    exact ⟨h.consume, rfl⟩
  | discard =>
    simp only [step, Option.ite_none_right_eq_some, Option.some.injEq, Prod.mk.injEq] at hstep
    obtain ⟨-, rfl, rfl⟩ := hstep
    exact ⟨h.discard, rfl⟩

theorem step_size_le {op : Op} {s' : ReadBuffer} {o : Output}
    (hstep : s.step op = some (s', o)) : s.size ≤ s'.size := by
  cases op <;>
    simp only [step, ReadBuffer.get, Option.ite_none_right_eq_some, Option.some.injEq,
      Prod.mk.injEq] at hstep
  case pull => obtain ⟨-, rfl, -⟩ := hstep; exact size_le_pull s
  case get => split_ifs at hstep <;> obtain ⟨rfl, -⟩ := Prod.mk.inj hstep <;> exact le_refl _
  case readLine q => obtain ⟨-, rfl, -⟩ := hstep; exact (size_readLine s q).ge
  case pick | isEof => obtain ⟨rfl, -⟩ := hstep; exact le_refl _
  all_goals obtain ⟨-, rfl, -⟩ := hstep; exact le_refl _

theorem run_size_le {ops : List Op} {s' : ReadBuffer} {outs : List Output}
    (hrun : s.run ops = some (s', outs)) : s.size ≤ s'.size := by
  induction ops generalizing s outs with
  | nil => cases hrun; exact le_refl _
  | cons op ops ih =>
    simp only [run] at hrun
    split at hrun
    · cases hrun
    · obtain ⟨r, hr, hr'⟩ := Option.map_eq_some'.mp hrun
      cases hr'
      exact le_trans (step_size_le ‹_›) (ih hr)

/-- A whole run keeps the relation and returns the stream's outputs, as long as the buffer
ends below `2^32` bytes (its size never shrinks, so it stayed below all along). -/
theorem run_refines {ops : List Op} {s' : ReadBuffer} {outs : List Output} (h : Refines s a)
    (hrun : s.run ops = some (s', outs)) (hsize : s'.size < 2 ^ 32) :
    Refines s' (a.run ops).1 ∧ outs = (a.run ops).2 := by
  induction ops generalizing s a outs with
  | nil => cases hrun; exact ⟨h, rfl⟩
  | cons op ops ih =>
    simp only [run] at hrun
    split at hrun
    · cases hrun
    · rename_i s₁ o hstep
      obtain ⟨r, hr, hr'⟩ := Option.map_eq_some'.mp hrun
      cases hr'
      have h₁ := step_refines h hstep (lt_of_le_of_lt (run_size_le hr) hsize)
      obtain ⟨h₂, h₃⟩ := ih h₁.1 hr
      exact ⟨h₂, by rw [h₁.2, h₃]; rfl⟩

theorem refines_create (bufferSize : ℕ) : Refines (create bufferSize) LogicalStream.empty :=
  ⟨le_refl _, le_refl _, Nat.zero_le _, by simp only [create, nBuf]; omega,
    fun h => absurd h (by simp [create]),
    le_refl _, le_refl _, rfl, rfl, rfl⟩

/-- `ReadBuffer` refines the logical stream: along every run that follows the pull-then-push
protocol and keeps `buffer_.size()` below `2^32`, the unconsumed bytes are the stream's, the
read offsets agree, and every operation returns what the stream returns. -/
theorem readBuffer_refines_logicalStream (bufferSize : ℕ) (ops : List Op) (s : ReadBuffer)
    (outs : List Output) (hrun : (create bufferSize).run ops = some (s, outs))
    (hsize : s.size < 2 ^ 32) :
    Refines s (LogicalStream.empty.run ops).1 ∧ outs = (LogicalStream.empty.run ops).2 :=
  run_refines (refines_create bufferSize) hrun hsize

/-- A protocol run that reads a line, consumes it, fills the buffer, rotates it and reads
again. -/
def rotatingRun : List Op :=
  [.pull, .push [1, 2, 3, 10], .readLine 8, .consume, .pull, .push [4, 5, 6, 7], .pull,
    .push [8, 9, 10, 11], .pull, .push [12, 13, 14, 15], .get, .get, .get, .consume, .pull,
    .push [16, 17], .read 5]

theorem readBuffer_refines_logicalStream_rotating_run :
    Refines ((create 4).run rotatingRun |>.getD (create 4, [])).1
        (LogicalStream.empty.run rotatingRun).1 ∧
      ((create 4).run rotatingRun |>.getD (create 4, [])).2 =
        (LogicalStream.empty.run rotatingRun).2 :=
  readBuffer_refines_logicalStream 4 rotatingRun _ _ rfl (by decide)

/-! ### Past `2^32` bytes -/

theorem run_cons_of_step {s' : ReadBuffer} {op : Op} {o : Output} (ops : List Op)
    (h : s.step op = some (s', o)) :
    s.run (op :: ops) = (s'.run ops).map fun r => (r.1, o :: r.2) := by
  simp only [run, h]

/-- With `BUFFER_SIZE = 2^31`, two full pushes wrap `wpos_` back to `0`, and the next `get`
fails as if nothing had been written. -/
theorem run_wrapping {c : List UInt8} (hc : c.length = 2 ^ 31) :
    ∃ s e, (create (2 ^ 31)).run [.pull, .push c, .pull, .push c, .get] =
      some (s, [.unit, .unit, .unit, .unit, .byte (.error e)]) := by
  -- the first pull doubles the buffer: `u32(buffer_.size())` is already `0`
  obtain ⟨X, h₀, hs, hw, hr, hb, ha⟩ : ∃ X, (create (2 ^ 31)).step .pull = some (X, .unit) ∧
      X.size = 2 ^ 34 ∧ X.wpos = 0 ∧ X.rpos = 0 ∧ X.bufferSize = 2 ^ 31 ∧ X.buffersAllocated = 1 :=
    ⟨(create (2 ^ 31)).pull, rfl, by decide, by decide, by decide, by decide, by decide⟩
  have h₁ : X.step (.push c) = some (X.push c, .unit) := if_pos ⟨ha, by rw [hc, hb]⟩
  have hw₁ : (X.push c).wpos = 2 ^ 31 := by rw [push_wpos, hw, hc]; decide
  -- the second pull finds `2^31` free bytes and changes nothing
  have h₂ : (X.push c).step .pull = some ((X.push c).pull, .unit) :=
    if_pos (by rw [push_buffersAllocated, ha]; rfl)
  have hroom : ¬ sub32 (u32 (X.push c).size) (X.push c).wpos < (X.push c).bufferSize := by
    rw [push_size, push_bufferSize, hs, hb, hw₁]; decide
  -- the second push wraps `wpos_` to `0`, where `rpos_` still is
  have h₃ : (X.push c).pull.step (.push c) = some ((X.push c).pull.push c, .unit) :=
    if_pos ⟨by rw [pull_buffersAllocated, push_buffersAllocated, ha]; rfl,
      by rw [pull_of_room hroom, hc]; exact hb.ge⟩
  have hrw : ((X.push c).pull.push c).rpos = ((X.push c).pull.push c).wpos := by
    rw [pull_of_room hroom, push_rpos, push_wpos]
    show (X.push c).rpos = u32 ((X.push c).wpos + c.length)
    rw [push_rpos, hr, hw₁, hc]; decide
  rw [run_cons_of_step _ h₀, run_cons_of_step _ h₁, run_cons_of_step _ h₂, run_cons_of_step _ h₃]
  simp only [run, step, ReadBuffer.get, if_pos hrw, Option.map_some']
  exact ⟨_, _, rfl⟩

/-- On the stream the same run ends with a successful `get`. -/
theorem stream_run_wrapping {c : List UInt8} (hc : 0 < c.length) :
    (LogicalStream.empty.run [.pull, .push c, .pull, .push c, .get]).2 =
      [.unit, .unit, .unit, .unit, .byte (.ok ((c ++ c).getD 0 0))] := by
  have : 0 < (c ++ c).length := by simp only [List.length_append]; omega
  simp only [LogicalStream.run, LogicalStream.step, LogicalStream.empty, List.nil_append,
    if_pos this]

/-- Without a bound on the buffer size the refinement fails: once `2^32` bytes are pending the
`u32` write position wraps, and `get` reports the end of the stream although the stream still
holds every pushed byte. -/
theorem readBuffer_wraps_past_four_gib :
    ¬ ∀ (bufferSize : ℕ) (ops : List Op) (s : ReadBuffer) (outs : List Output),
      (create bufferSize).run ops = some (s, outs) →
        Refines s (LogicalStream.empty.run ops).1 ∧ outs = (LogicalStream.empty.run ops).2 := by
  intro H
  obtain ⟨c, hc⟩ : ∃ c : List UInt8, c.length = 2 ^ 31 := ⟨_, List.length_replicate _ 0⟩
  obtain ⟨s, e, hrun⟩ := run_wrapping hc
  have h := (H _ _ _ _ hrun).2
  rw [stream_run_wrapping (by rw [hc]; exact Nat.two_pow_pos _)] at h
  simp at h

end ReadBuffer

end Stdb
