import Stdb.ReadBufferRefinement
import Stdb.CLib

/-!
# `RESPStream` over the read buffer's stream

The RESP parser reads its buffer only through `RESPStream`, `consume()`, `discard()` and
`get_error_context()`.  The buffer is modelled here by the stream it refines
(`ReadBuffer.Refines`, `readBuffer_refines_logicalStream`): every pushed byte, the consumed
offset and the read offset.  `consume`, `discard` and `parserError` below are the stream's
side of `ReadBuffer.Refines.consume`, `Refines.discard` and `Refines.error`.

`resp.h` and `resp.cc` are not among the sources.  The reads of `RESPStream` are modelled from
the parser's header documentation and from `resp_test.cc`:

* `next_type()` looks at the next byte without reading it: `+` string, `:` integer, `$` bulk
  string, `*` array, `-` error, anything else bad, and `_AGAIN` at the end of the data;
* `read_int()`, `read_string(buf, size)` and `read_array_size()` read one element, a type byte
  and a body closed by `"\r\n"`; they return `success == false` while the element is not
  complete and throw `RESPError` on a wrong type byte, a body that is not a decimal numeral
  below `2^64` (integers and array sizes), a string longer than `size`, or a `'\r'` that is
  not followed by `'\n'`.

Every successful read moves the read offset past the element and nothing else
(`readElement_some`): the parser's loops all make progress through it.
-/

namespace Stdb

namespace LogicalStream

/-- The bytes after the read offset. -/
def unread (a : LogicalStream) : List UInt8 := a.data.drop a.readPos

/-- The read offset moved `n` bytes on. -/
def advance (a : LogicalStream) (n : ℕ) : LogicalStream := { a with readPos := a.readPos + n }

/-- `consume()`. -/
def consume (a : LogicalStream) : LogicalStream := { a with consumed := a.readPos }

/-- `discard()`. -/
def discard (a : LogicalStream) : LogicalStream := { a with readPos := a.consumed }

/-- `push(buffer, size)` of the chunk the server wrote. -/
def push (a : LogicalStream) (chunk : List UInt8) : LogicalStream :=
  { a with data := a.data ++ chunk }

/-- The `ProtocolParserError` thrown with `get_error_context(msg)`. -/
def parserError (a : LogicalStream) (msg : String) : Exception :=
  .protocolParserError (ReadBuffer.contextMessage msg (a.data.drop a.consumed)) 0

/-- The bytes left to read: what every loop of the parser uses up. -/
def remaining (a : LogicalStream) : ℕ := a.data.length - a.readPos

@[simp] theorem advance_data (a : LogicalStream) (n : ℕ) : (a.advance n).data = a.data := rfl
@[simp] theorem advance_consumed (a : LogicalStream) (n : ℕ) :
    (a.advance n).consumed = a.consumed := rfl
@[simp] theorem consume_data (a : LogicalStream) : a.consume.data = a.data := rfl
@[simp] theorem consume_readPos (a : LogicalStream) : a.consume.readPos = a.readPos := rfl
@[simp] theorem discard_data (a : LogicalStream) : a.discard.data = a.data := rfl

@[simp] theorem push_data (a : LogicalStream) (v : List UInt8) : (a.push v).data = a.data ++ v :=
  rfl
@[simp] theorem consume_remaining (a : LogicalStream) : a.consume.remaining = a.remaining := rfl
@[simp] theorem advance_zero (a : LogicalStream) : a.advance 0 = a := rfl
@[simp] theorem push_advance (a : LogicalStream) (n : ℕ) (v : List UInt8) :
    (a.advance n).push v = (a.push v).advance n := rfl
@[simp] theorem push_consume (a : LogicalStream) (v : List UInt8) :
    a.consume.push v = (a.push v).consume := rfl
@[simp] theorem push_discard (a : LogicalStream) (v : List UInt8) :
    a.discard.push v = (a.push v).discard := rfl

theorem advance_advance (a : LogicalStream) (n m : ℕ) :
    (a.advance n).advance m = a.advance (n + m) := by
  simp only [advance, Nat.add_assoc]

theorem unread_advance (a : LogicalStream) (n : ℕ) : (a.advance n).unread = a.unread.drop n := by
  simp only [unread, advance, List.drop_drop, Nat.add_comm]

theorem length_unread (a : LogicalStream) : a.unread.length = a.remaining := by
  simp [unread, remaining]

/-- Moving past `n` of the unread bytes, `n > 0`, leaves fewer bytes to read. -/
theorem remaining_advance {a : LogicalStream} {n : ℕ} (hn : 0 < n) (h : n ≤ a.unread.length) :
    (a.advance n).remaining < a.remaining := by
  rw [length_unread] at h; simp only [remaining, advance] at *; omega

/-! ### Reads move on over the unread bytes -/

/-- `a'` is `a` after reads: the read offset moved on over unread bytes, and nothing else. -/
def Behind (a' a : LogicalStream) : Prop := ∃ n, n ≤ a.unread.length ∧ a' = a.advance n

/-- `a'` is `a` after reads of at least one byte. -/
def Past (a' a : LogicalStream) : Prop := ∃ n, 0 < n ∧ n ≤ a.unread.length ∧ a' = a.advance n

variable {a a' a'' : LogicalStream}

theorem Behind.refl (a : LogicalStream) : a.Behind a := ⟨0, Nat.zero_le _, rfl⟩

theorem Behind.trans (h₂ : a''.Behind a') (h₁ : a'.Behind a) : a''.Behind a := by
  obtain ⟨n, hn, rfl⟩ := h₁
  obtain ⟨m, hm, rfl⟩ := h₂
  rw [unread_advance, List.length_drop] at hm
  exact ⟨n + m, by omega, advance_advance a n m⟩

theorem Past.behind (h : a'.Past a) : a'.Behind a :=
  let ⟨n, _, hn, he⟩ := h; ⟨n, hn, he⟩

theorem Behind.trans_past (h₂ : a''.Behind a') (h₁ : a'.Past a) : a''.Past a := by
  obtain ⟨n, hn, hn', rfl⟩ := h₁
  obtain ⟨m, hm, rfl⟩ := h₂
  rw [unread_advance, List.length_drop] at hm
  exact ⟨n + m, by omega, by omega, advance_advance a n m⟩

theorem Past.remaining_lt (h : a'.Past a) : a'.remaining < a.remaining := by
  obtain ⟨n, hn, hle, rfl⟩ := h
  exact remaining_advance hn hle

/-- The offsets of a stream the parser built: nothing consumed past the read offset, nothing
read past the data. -/
def Valid (a : LogicalStream) : Prop := a.consumed ≤ a.readPos ∧ a.readPos ≤ a.data.length

theorem Valid.behind (hv : a.Valid) (h : a'.Behind a) : a'.Valid := by
  obtain ⟨n, hn, rfl⟩ := h
  obtain ⟨h1, h2⟩ := hv
  simp only [unread, List.length_drop] at hn
  exact ⟨by simp only [advance]; omega, by simp only [advance]; omega⟩

theorem Valid.consume (hv : a.Valid) : a.consume.Valid := ⟨le_rfl, hv.2⟩

theorem Valid.discard (hv : a.Valid) : a.discard.Valid := ⟨le_rfl, hv.1.trans hv.2⟩

theorem Valid.push (hv : a.Valid) (v : List UInt8) : (a.push v).Valid :=
  ⟨hv.1, hv.2.trans (by rw [push_data, List.length_append]; omega)⟩

theorem unread_push (hv : a.Valid) (v : List UInt8) : (a.push v).unread = a.unread ++ v :=
  List.drop_append_of_le_length hv.2

/-- The offsets `worker()` leaves between two chunks: everything read is consumed. -/
def Boundary (a : LogicalStream) : Prop := a.readPos = a.consumed ∧ a.readPos ≤ a.data.length

theorem Boundary.valid (h : a.Boundary) : a.Valid := ⟨h.1.ge, h.2⟩

theorem Boundary.discard_eq (h : a.Boundary) : a.discard = a := by
  obtain ⟨d, c, r⟩ := a
  obtain ⟨h₁, -⟩ := h
  dsimp only at h₁
  subst h₁
  rfl

theorem Boundary.push (h : a.Boundary) (v : List UInt8) : (a.push v).Boundary :=
  ⟨h.1, by show a.readPos ≤ (a.data ++ v).length; have := h.2; simp only [List.length_append]; omega⟩

theorem Valid.discard_boundary (hv : a.Valid) : a.discard.Boundary := ⟨rfl, hv.1.trans hv.2⟩

theorem Valid.consume_boundary (hv : a.Valid) : a.consume.Boundary := ⟨rfl, hv.2⟩

/-- Reads from a boundary go back to it on `discard()`. -/
theorem Behind.discard_eq (h : a'.Behind a) (hb : a.Boundary) : a'.discard = a := by
  obtain ⟨n, -, rfl⟩ := h
  exact hb.discard_eq

end LogicalStream

namespace RESP

open LogicalStream

/-- `RESPStream::Type`. -/
inductive RespType
  | string
  | integer
  | bulkStr
  | array
  | error
  | bad
  | again
deriving Repr, DecidableEq

/-- Modelled from the spec: `RESPError`.  Its message and position are built in `resp.cc`,
which is not among the sources; the model keeps only the kind. -/
def respError : Exception := .respError [] 0

/-- The type byte of a RESP element. -/
def typeOfByte (b : UInt8) : RespType :=
  if b = 43 then .string else if b = 58 then .integer else if b = 36 then .bulkStr
  else if b = 42 then .array else if b = 45 then .error else .bad

/-- Modelled from the spec: `next_type()`, the type of the next element, read without moving. -/
def nextType (a : LogicalStream) : RespType :=
  match a.unread with
  | [] => .again
  | b :: _ => typeOfByte b

/-- How the bytes after a type byte end: a body closed by `"\r\n"`, not yet closed, or a `'\r'`
followed by another byte. -/
inductive LineScan
  | line (body : List UInt8)
  | incomplete
  | malformed

/-- The body of an element, up to its `"\r\n"`. -/
def lineScan : List UInt8 → LineScan
  | [] => .incomplete
  | c :: cs =>
    if c = 13 then
      match cs with
      | [] => .incomplete
      | d :: _ => if d = 10 then .line [] else .malformed
    else
      match lineScan cs with
      | .line body => .line (c :: body)
      | r => r

/-- Modelled from the spec: one element `tag body "\r\n"` at the head of `u`, its body decoded
by `f`: the value and the element's length, `none` while it is incomplete, `RESPError` on a
wrong tag, a malformed end or a body `f` refuses.  The shared shape of `read_int`,
`read_string` and `read_array_size`. -/
def decodeElement {α : Type} (tag : UInt8) (f : List UInt8 → Option α) (u : List UInt8) :
    Except Exception (Option (α × ℕ)) :=
  match u with
  | [] => .ok none
  | c :: rest =>
    if c ≠ tag then .error respError
    else
      match lineScan rest with
      | .incomplete => .ok none
      | .malformed => .error respError
      | .line body =>
        match f body with
        | some v => .ok (some (v, body.length + 3))
        | none => .error respError

/-- A decimal numeral below `2^64`. -/
def numeral (body : List UInt8) : Option ℕ :=
  if body ≠ [] ∧ body.all CLib.isDigit ∧ CLib.digitsValue body < 2 ^ 64 then
    some (CLib.digitsValue body) else none

/-- A string body that fits the caller's buffer of `size` bytes. -/
def fitting (size : ℕ) (body : List UInt8) : Option (List UInt8) :=
  if body.length ≤ size then some body else none

/-- A read of one element with decoder `f`, from the read offset. -/
def readElement {α : Type} (tag : UInt8) (f : List UInt8 → Option α) (a : LogicalStream) :
    Except Exception (Option (α × LogicalStream)) :=
  (decodeElement tag f a.unread).map (Option.map fun r => (r.1, a.advance r.2))

/-- Modelled from the spec: `read_int()`. -/
def readInt : LogicalStream → Except Exception (Option (ℕ × LogicalStream)) :=
  readElement 58 numeral

/-- Modelled from the spec: `read_string(buf, size)`. -/
def readString (size : ℕ) : LogicalStream → Except Exception (Option (List UInt8 × LogicalStream)) :=
  readElement 43 (fitting size)

/-- Modelled from the spec: `read_array_size()`. -/
def readArraySize : LogicalStream → Except Exception (Option (ℕ × LogicalStream)) :=
  readElement 42 numeral

/-! ### What a read does -/

theorem lineScan_length : ∀ {l body : List UInt8}, lineScan l = .line body →
    body.length + 2 ≤ l.length
  | [], _, h => by simp [lineScan] at h
  | c :: cs, body, h => by
    unfold lineScan at h
    split_ifs at h with hc
    · rcases cs with _ | ⟨d, ds⟩
      · cases h
      · dsimp only at h
        split_ifs at h
        cases h; simp
    · cases hl : lineScan cs with
      | line b =>
        rw [hl] at h; cases h
        have := lineScan_length hl
        simp only [List.length_cons]; omega
      | incomplete => rw [hl] at h; cases h
      | malformed => rw [hl] at h; cases h

/-- A decoded element is made of at least its type byte and its `"\r\n"`, and of no more bytes
than there are. -/
theorem decodeElement_length {α : Type} {tag : UInt8} {f : List UInt8 → Option α}
    {u : List UInt8} {v : α} {n : ℕ} (h : decodeElement tag f u = .ok (some (v, n))) :
    0 < n ∧ n ≤ u.length := by
  unfold decodeElement at h
  split at h
  · cases h
  · split at h
    · cases h
    · split at h
      · cases h
      · cases h
      · rename_i c rest body hb
        split at h
        · simp only [Except.ok.injEq, Option.some.injEq, Prod.mk.injEq] at h
          have := lineScan_length hb
          simp only [List.length_cons]; omega
        · cases h

/-- A successful read moves the read offset past one element, over at least one byte. -/
theorem readElement_some {α : Type} {tag : UInt8} {f : List UInt8 → Option α}
    {a a' : LogicalStream} {v : α} (h : readElement tag f a = .ok (some (v, a'))) :
    a'.Past a := by
  unfold readElement at h
  cases hd : decodeElement tag f a.unread with
  | error e => rw [hd] at h; cases h
  | ok r =>
    rw [hd] at h
    rcases r with _ | ⟨w, n⟩
    · cases h
    · simp only [Except.map, Option.map_some', Except.ok.injEq, Option.some.injEq,
        Prod.mk.injEq] at h
      exact ⟨n, (decodeElement_length hd).1, (decodeElement_length hd).2, h.2.symm⟩

/-! ### More bytes never change a read that completed -/

/-- A scan that found the end of its body, or a malformed end, never looks at later bytes. -/
theorem lineScan_append : ∀ {l : List UInt8} (v : List UInt8), lineScan l ≠ .incomplete →
    lineScan (l ++ v) = lineScan l
  | [], _, h => absurd rfl h
  | c :: cs, v, h => by
    unfold lineScan at h ⊢
    by_cases hc : c = 13
    · rcases cs with _ | ⟨d, ds⟩
      · simp [hc] at h
      · simp [hc]
    · simp only [hc, ↓reduceIte, List.cons_append] at h ⊢
      cases hl : lineScan cs with
      | incomplete => rw [hl] at h; exact absurd rfl h
      | _ => rw [lineScan_append v (by simp [hl]), hl]

theorem decodeElement_append {α : Type} {tag : UInt8} {f : List UInt8 → Option α}
    {u : List UInt8} (v : List UInt8) (h : decodeElement tag f u ≠ .ok none) :
    decodeElement tag f (u ++ v) = decodeElement tag f u := by
  rcases u with _ | ⟨c, rest⟩
  · exact absurd rfl h
  · by_cases hc : c = tag
    · have hl : lineScan rest ≠ .incomplete := fun hl => by simp [decodeElement, hc, hl] at h
      simp only [decodeElement, List.cons_append, lineScan_append v hl]
    · simp [decodeElement, hc]

theorem readElement_push {α : Type} {tag : UInt8} {f : List UInt8 → Option α}
    {a : LogicalStream} (hv : a.Valid) (v : List UInt8) (h : readElement tag f a ≠ .ok none) :
    readElement tag f (a.push v) =
      (readElement tag f a).map (Option.map fun r => (r.1, r.2.push v)) := by
  have hd : decodeElement tag f a.unread ≠ .ok none := fun hd => h (by rw [readElement, hd]; rfl)
  rw [readElement, readElement, unread_push hv, decodeElement_append v hd]
  rcases decodeElement tag f a.unread with _ | _ | _ <;> rfl

theorem readElement_push_some {α : Type} {tag : UInt8} {f : List UInt8 → Option α}
    {a a' : LogicalStream} {x : α} (hv : a.Valid) (v : List UInt8)
    (h : readElement tag f a = .ok (some (x, a'))) :
    readElement tag f (a.push v) = .ok (some (x, a'.push v)) := by
  rw [readElement_push hv v (by rw [h]; simp), h]; rfl

theorem readElement_push_error {α : Type} {tag : UInt8} {f : List UInt8 → Option α}
    {a : LogicalStream} {e : Exception} (hv : a.Valid) (v : List UInt8)
    (h : readElement tag f a = .error e) : readElement tag f (a.push v) = .error e := by
  rw [readElement_push hv v (by rw [h]; simp), h]; rfl

/-- The type of an element whose first byte arrived does not change with later bytes. -/
theorem nextType_push {a : LogicalStream} (hv : a.Valid) (v : List UInt8)
    (h : nextType a ≠ .again) : nextType (a.push v) = nextType a := by
  unfold nextType at h ⊢
  rw [unread_push hv]
  cases hu : a.unread with
  | nil => rw [hu] at h; exact absurd rfl h
  | cons b bs => rfl

end RESP

end Stdb
