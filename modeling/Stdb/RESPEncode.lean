import Stdb.RESPChunks

/-!
# The RESP data protocols, from units to bytes and back

The header of `protocolparser.h` documents what a client sends the RESP parser: protocol data
units made of a series name (a RESP string), a timestamp (a RESP integer, or a string for
`Utility::parse_timestamp`) and the values, one bare element for a single series or a RESP array
for a compound name.  This module writes such units as bytes (`DataUnit.encode`) and says what
the protocol does with them (`protocolRun`): each unit's name is resolved to its series ids,
then one sample per series is written, in order.

A unit may also name its series by a user id that a dictionary registered (`KeyedUnit`, with
`keyedRun` for what the protocol does with such units; the dictionary itself is in
`RESPSession`).

* `readElement_encode`: a read of an element written by the client returns its body and moves
  past it, whatever follows;
* `parseIds_resolve`, `parseTimestamp_encode`, `parseValues_encode` and `writeColumns_eq`: each
  part of a unit, parsed from its encoding;
* `dataStep_keyed`: one turn of the data loop reads one unit and makes the calls the protocol
  makes for it;
* `protocolRun_eq_keyedRun`: units named by their names are keyed units with no dictionary.

A unit must fit what the parser reads: strings without `'\r'` and within the buffers they are
read into, a string timestamp and a float literal shorter than `tsbuf` and `buf`, so that the
`'\0'` written after them stays inside (`fitsTerminated`; a longer one writes past the array, the
outcome `Exception.outOfBounds`), integers below `2^64`, a literal `strtod` accepts whole for a numeric series, an
event body below `STDB_LIMITS_MAX_EVENT_LEN` for an event series, and one value per series of
its row.  An integer value for an event series does not fit (`parseNext_integer_event_stale_body`
shows what the parser makes of it).
-/

namespace Stdb

namespace RESP

open LogicalStream

/-! ### Elements -/

/-- The byte of a decimal digit `d < 10`. -/
def digitByte (d : ℕ) : UInt8 := (48 + d).toUInt8

/-- The decimal digits of `n`, most significant first, from at most `fuel` digits. -/
def decimalDigits : ℕ → ℕ → List UInt8
  | 0, _ => []
  | fuel + 1, n => (if n < 10 then [] else decimalDigits fuel (n / 10)) ++ [digitByte (n % 10)]

/-- How a client writes `n` in a RESP integer or array size: in decimal, without leading
zeros. -/
def decimal (n : ℕ) : List UInt8 := decimalDigits (n + 1) n

/-- An element `tag body "\r\n"` as a client writes it. -/
def encodeElement (tag : UInt8) (body : List UInt8) : List UInt8 := tag :: (body ++ [13, 10])

theorem length_encodeElement (tag : UInt8) (body : List UInt8) :
    (encodeElement tag body).length = body.length + 3 := by
  simp [encodeElement]

theorem toNat_digitByte : ∀ d, d < 10 → (digitByte d).toNat = 48 + d := by decide

theorem isDigit_digitByte : ∀ d, d < 10 → CLib.isDigit (digitByte d) = true := by decide

theorem digitsValue_append_digit (ds : List UInt8) {d : ℕ} (hd : d < 10) :
    CLib.digitsValue (ds ++ [digitByte d]) = 10 * CLib.digitsValue ds + d := by
  simp only [CLib.digitsValue, List.foldl_append, List.foldl_cons, List.foldl_nil,
    toNat_digitByte d hd, Nat.add_sub_cancel_left]

/-- Enough fuel writes the digits of `n`: at least one, all decimal, of value `n`. -/
theorem decimalDigits_spec : ∀ {fuel n : ℕ}, n < fuel →
    decimalDigits fuel n ≠ [] ∧ (decimalDigits fuel n).all CLib.isDigit ∧
      CLib.digitsValue (decimalDigits fuel n) = n
  | 0, _, h => absurd h (Nat.not_lt_zero _)
  | fuel + 1, n, h => by
    have hd : n % 10 < 10 := Nat.mod_lt _ (by decide)
    have hall : ∀ ds : List UInt8, ds.all CLib.isDigit →
        (ds ++ [digitByte (n % 10)]).all CLib.isDigit := fun ds hds => by
      simp only [List.all_append, hds, List.all_cons, isDigit_digitByte _ hd, List.all_nil,
        Bool.and_self]
    refine ⟨by simp [decimalDigits], ?_⟩
    by_cases hn : n < 10
    · simp only [decimalDigits, if_pos hn, List.nil_append]
      refine ⟨hall [] rfl, ?_⟩
      rw [← List.nil_append [digitByte (n % 10)], digitsValue_append_digit _ hd]
      simp only [CLib.digitsValue, List.foldl_nil]; omega
    · obtain ⟨-, h₂, h₃⟩ := decimalDigits_spec (show n / 10 < fuel by omega)
      simp only [decimalDigits, if_neg hn]
      refine ⟨hall _ h₂, ?_⟩
      rw [digitsValue_append_digit _ hd, h₃]
      omega

/-- A RESP integer body below `2^64`, read back. -/
theorem numeral_decimal {n : ℕ} (h : n < 2 ^ 64) : numeral (decimal n) = some n := by
  obtain ⟨h₁, h₂, h₃⟩ := decimalDigits_spec (Nat.lt_succ_self n)
  simp only [numeral, decimal, h₃, h₁, h₂, h, ne_eq, not_false_eq_true, and_self, if_true]

theorem cr_not_mem_decimal (n : ℕ) : (13 : UInt8) ∉ decimal n := fun hm => by
  have := List.all_eq_true.mp (decimalDigits_spec (Nat.lt_succ_self n)).2.1 13 hm
  revert this; decide

theorem lineScan_cons_of_ne {c : UInt8} (hc : c ≠ 13) (l : List UInt8) :
    lineScan (c :: l) = match lineScan l with
      | .line body => .line (c :: body)
      | r => r :=
  if_neg hc

theorem lineScan_body : ∀ {body : List UInt8}, (13 : UInt8) ∉ body → ∀ rest : List UInt8,
    lineScan (body ++ 13 :: 10 :: rest) = .line body
  | [], _, rest => by simp [lineScan]
  | c :: cs, h, rest => by
    have hc : c ≠ 13 := fun hc => h (hc ▸ List.mem_cons_self _ _)
    rw [List.cons_append, lineScan_cons_of_ne hc,
      lineScan_body (fun hm => h (List.mem_cons_of_mem _ hm)) rest]

/-- A read of an element the client wrote returns its body, decoded by `f`, and moves past the
element, whatever follows it. -/
theorem readElement_encode {α : Type} {tag : UInt8} {f : List UInt8 → Option α}
    {a : LogicalStream} {body rest : List UInt8} {v : α}
    (hu : a.unread = encodeElement tag body ++ rest) (hb : (13 : UInt8) ∉ body)
    (hf : f body = some v) :
    readElement tag f a = .ok (some (v, a.advance (encodeElement tag body).length)) := by
  rw [length_encodeElement]
  simp only [readElement, hu, encodeElement, List.cons_append, List.append_assoc,
    List.singleton_append, decodeElement, ne_eq, not_true_eq_false, if_false,
    lineScan_body hb, hf]
  rfl

theorem nextType_encode {a : LogicalStream} {tag : UInt8} {body rest : List UInt8}
    (hu : a.unread = encodeElement tag body ++ rest) : nextType a = typeOfByte tag := by
  simp only [nextType, hu, encodeElement, List.cons_append]

/-- After an element, the bytes that followed it. -/
theorem unread_advance_append {a : LogicalStream} {e rest : List UInt8}
    (hu : a.unread = e ++ rest) : (a.advance e.length).unread = rest := by
  rw [unread_advance, hu, List.drop_left]

/-! ### Units, as a client writes them -/

/-- A timestamp as a client writes it: nanoseconds in a RESP integer, or text in a RESP string
for `Utility::parse_timestamp`. -/
inductive Stamp
  | nanos (ts : ℕ)
  | text (t : List UInt8)
deriving Repr, DecidableEq

/-- A value as a client writes it: an integer or a floating point literal for a numeric series,
an event body for an event series. -/
inductive Value
  | int (v : ℕ)
  | float (literal : List UInt8)
  | event (body : List UInt8)
deriving Repr, DecidableEq

/-- A protocol data unit of the data point or row protocol. -/
structure DataUnit where
  /-- The series name, compound for the row protocol. -/
  name : List UInt8
  stamp : Stamp
  /-- One value per series of the name. -/
  values : List Value
deriving Repr, DecidableEq

def Stamp.encode : Stamp → List UInt8
  | .nanos ts => encodeElement 58 (decimal ts)
  | .text t => encodeElement 43 t

def Value.encode : Value → List UInt8
  | .int v => encodeElement 58 (decimal v)
  | .float literal => encodeElement 43 literal
  | .event body => encodeElement 43 body

/-- The values of a unit: a single value bare, several in a RESP array. -/
def encodeValues : List Value → List UInt8
  | [v] => v.encode
  | vs => encodeElement 42 (decimal vs.length) ++ (vs.map Value.encode).flatten

def DataUnit.encode (u : DataUnit) : List UInt8 :=
  encodeElement 43 u.name ++ u.stamp.encode ++ encodeValues u.values

/-- The bytes of units sent one after the other. -/
def encodeUnits (us : List DataUnit) : List UInt8 := (us.map DataUnit.encode).flatten

/-- What a unit names its series by: the series name, or a user id a dictionary registered. -/
inductive SeriesKey
  | name (name : List UInt8)
  | uid (uid : ℕ)
deriving Repr, DecidableEq

/-- A protocol data unit whose series are named by a key. -/
structure KeyedUnit where
  key : SeriesKey
  stamp : Stamp
  /-- One value per series of the key. -/
  values : List Value
deriving Repr, DecidableEq

def SeriesKey.encode : SeriesKey → List UInt8
  | .name n => encodeElement 43 n
  | .uid k => encodeElement 58 (decimal k)

def KeyedUnit.encode (u : KeyedUnit) : List UInt8 :=
  u.key.encode ++ u.stamp.encode ++ encodeValues u.values

/-- A unit named by its series name. -/
def DataUnit.keyed (u : DataUnit) : KeyedUnit := ⟨.name u.name, u.stamp, u.values⟩

@[simp] theorem DataUnit.keyed_key (u : DataUnit) : u.keyed.key = .name u.name := rfl
@[simp] theorem DataUnit.keyed_stamp (u : DataUnit) : u.keyed.stamp = u.stamp := rfl
@[simp] theorem DataUnit.keyed_values (u : DataUnit) : u.keyed.values = u.values := rfl

theorem encodeUnits_eq_keyed (us : List DataUnit) :
    encodeUnits us = ((us.map DataUnit.keyed).map KeyedUnit.encode).flatten := by
  rw [List.map_map]; rfl

/-! ### What fits the parser -/

/-- A RESP string read whole into a buffer of `size` bytes. -/
def fitsString (size : ℕ) (s : List UInt8) : Bool := decide (s.length ≤ size ∧ (13 : UInt8) ∉ s)

/-- A RESP string read whole into a buffer of `size` bytes, with room after it for the `'\0'` the
parser writes at `buf[bytes_read]`. -/
def fitsTerminated (size : ℕ) (s : List UInt8) : Bool := decide (s.length < size ∧ (13 : UInt8) ∉ s)

theorem fitsString_of_fitsTerminated {size : ℕ} {s : List UInt8} (h : fitsTerminated size s) :
    fitsString size s ∧ s.length < size := by
  simp only [fitsTerminated, fitsString, decide_eq_true_eq] at h ⊢
  exact ⟨⟨h.1.le, h.2⟩, h.1⟩

/-- A timestamp the parser reads: an integer below `2^64`, or a text that `tsbuf` holds with its
terminator and `Utility::parse_timestamp` accepts. -/
def Stamp.fits (parseTs : List UInt8 → Option Timestamp) : Stamp → Bool
  | .nanos ts => decide (ts < 2 ^ 64)
  | .text t => fitsTerminated 28 t && (parseTs t).isSome

/-- A value for series `id`: an integer below `2^64` or a literal that `buf` holds with its
terminator and `strtod` reads whole for a numeric series, a body shorter than
`STDB_LIMITS_MAX_EVENT_LEN` for an event series. -/
def Value.fits (lim : Limits) (id : ParamId) : Value → Bool
  | .int v => isFloatId id && decide (v < 2 ^ 64)
  | .float literal =>
    isFloatId id && fitsTerminated 64 literal && decide ((CLib.strtod literal).2 = literal.length)
  | .event body =>
    !isFloatId id && fitsString lim.stringLengthMax body && decide (body.length < lim.maxEventLen)

/-- A unit whose name resolved to `row`: a name and a timestamp the parser reads, and one value
per series of the row, each fitting its series. -/
def DataUnit.fits (lim : Limits) (parseTs : List UInt8 → Option Timestamp) (row : List ParamId)
    (u : DataUnit) : Bool :=
  fitsString lim.stringLengthMax u.name && u.stamp.fits parseTs && !row.isEmpty &&
    decide (row.length = u.values.length) && decide (u.values.length < 2 ^ 31) &&
    (List.zipWith (Value.fits lim) row u.values).all id

/-- A key the parser reads: a name as `DataUnit.fits` asks, a user id below `2^64`. -/
def SeriesKey.fits (lim : Limits) : SeriesKey → Bool
  | .name n => fitsString lim.stringLengthMax n
  | .uid k => decide (k < 2 ^ 64)

/-- `DataUnit.fits` for a unit named by a key. -/
def KeyedUnit.fits (lim : Limits) (parseTs : List UInt8 → Option Timestamp) (row : List ParamId)
    (u : KeyedUnit) : Bool :=
  u.key.fits lim && u.stamp.fits parseTs && !row.isEmpty &&
    decide (row.length = u.values.length) && decide (u.values.length < 2 ^ 31) &&
    (List.zipWith (Value.fits lim) row u.values).all id

@[simp] theorem DataUnit.fits_keyed (lim : Limits) (parseTs : List UInt8 → Option Timestamp)
    (row : List ParamId) (u : DataUnit) : u.keyed.fits lim parseTs row = u.fits lim parseTs row :=
  rfl

/-! ### What the protocol does with units -/

/-- The time a stamp stands for. -/
def Stamp.time (parseTs : List UInt8 → Option Timestamp) : Stamp → Option Timestamp
  | .nanos ts => some ts
  | .text t => parseTs t

/-- The sample a value becomes in series `id` at time `ts`: an integer is used as is, a literal
is the number `strtod` reads, an event carries its body after the `Sample` header. -/
def Value.sample (lim : Limits) (id : ParamId) (ts : Timestamp) : Value → Sample
  | .int v => ⟨id, ts, ⟨.float, lim.sizeofSample, .ofU64 v, []⟩⟩
  | .float literal => ⟨id, ts, ⟨.float, lim.sizeofSample, (CLib.strtod literal).1, []⟩⟩
  | .event body => ⟨id, ts, ⟨.event, body.length + lim.sizeofSample, .indeterminate, body⟩⟩

/-- The samples of a unit whose name resolved to `row`, one per series, in order. -/
def DataUnit.samples (lim : Limits) (row : List ParamId) (ts : Timestamp) (u : DataUnit) :
    List Sample :=
  List.zipWith (fun id v => v.sample lim id ts) row u.values

/-- `DataUnit.samples` for a unit named by a key. -/
def KeyedUnit.samples (lim : Limits) (row : List ParamId) (ts : Timestamp) (u : KeyedUnit) :
    List Sample :=
  List.zipWith (fun id v => v.sample lim id ts) row u.values

@[simp] theorem DataUnit.samples_keyed (lim : Limits) (row : List ParamId) (ts : Timestamp)
    (u : DataUnit) : u.keyed.samples lim row ts = u.samples lim row ts :=
  rfl

/-- A dictionary as the protocol means it: the row of series each registered user id stands
for. -/
abbrev Dict := List (ℕ × List ParamId)

section Protocol

variable {σ : Type} (lim : Limits) (db : DbSession σ) (parseTs : List UInt8 → Option Timestamp)

/-- Samples written one after the other; a failed write ends with `DatabaseError`.  The session
state and the calls made. -/
def writeAll : σ → List Sample → Except Exception (σ × List DbCall)
  | s, [] => .ok (s, [])
  | s, x :: xs =>
    let w := db.write s x
    if w.1 ≠ .ok then .error (.databaseError w.1)
    else (writeAll w.2 xs).map fun r => (r.1, .write x :: r.2)

/-- The data point and row protocols as the header documents them, unit by unit: the name is
resolved to its series, then each value is written to its series.  The session state and the
calls made; `none` when a unit does not fit the row its name resolved to. -/
def protocolRun (s : σ) : List DataUnit → Option (Except Exception (σ × List DbCall))
  | [] => some (.ok (s, []))
  | u :: us =>
    let r := db.nameToParamIdList s u.name lim.maxRowWidth
    match u.stamp.time parseTs with
    | none => none
    | some ts =>
      if u.fits lim parseTs r.1 then
        match writeAll db r.2 (u.samples lim r.1 ts) with
        | .error e => some (.error e)
        | .ok (s', cs) =>
          (protocolRun s' us).map (Except.map fun x => (x.1, .nameToParamIdList u.name :: cs ++ x.2))
      else none

/-- What a key stands for: a name is resolved in the session, a user id in the dictionary.  The
row, the session state after, and the calls made. -/
def SeriesKey.resolve (d : Dict) (s : σ) : SeriesKey → Option (List ParamId × σ × List DbCall)
  | .name n =>
    let r := db.nameToParamIdList s n lim.maxRowWidth
    some (r.1, r.2, [.nameToParamIdList n])
  | .uid k => (d.lookup k).map fun row => (row, s, [])

/-- `protocolRun` over units named by keys, after the dictionary `d`. -/
def keyedRun (d : Dict) (s : σ) : List KeyedUnit → Option (Except Exception (σ × List DbCall))
  | [] => some (.ok (s, []))
  | u :: us =>
    match u.key.resolve lim db d s, u.stamp.time parseTs with
    | some (row, s₁, cs₁), some ts =>
      if u.fits lim parseTs row then
        match writeAll db s₁ (u.samples lim row ts) with
        | .error e => some (.error e)
        | .ok (s', cs) => (keyedRun d s' us).map (Except.map fun x => (x.1, cs₁ ++ cs ++ x.2))
      else none
    | _, _ => none

/-- Units named by their series names run as keyed units, with no dictionary. -/
theorem protocolRun_eq_keyedRun (s : σ) (us : List DataUnit) :
    protocolRun lim db parseTs s us = keyedRun lim db parseTs [] s (us.map DataUnit.keyed) := by
  induction us generalizing s with
  | nil => rfl
  | cons u us ih =>
    simp only [protocolRun, keyedRun, List.map_cons, ih, DataUnit.keyed_key, DataUnit.keyed_stamp,
      SeriesKey.resolve, DataUnit.fits_keyed, DataUnit.samples_keyed]
    cases u.stamp.time parseTs with
    | none => rfl
    | some ts =>
      dsimp only
      split_ifs
      · rcases writeAll db _ (u.samples lim _ ts) with e | ⟨s', cs⟩
        · rfl
        · simp only [List.singleton_append, List.cons_append, List.nil_append]
      · rfl

end Protocol

/-! ### Reading a unit back -/

/-- The slot `parse_values` fills for element `i`: `values_[i]` for a number, `events_[i]` for
an event. -/
def Value.store {σ : Type} (p : Parser σ) (i : ℕ) : Value → Parser σ
  | .int v => { p with values := Function.update p.values i (.ofU64 v) }
  | .float literal => { p with values := Function.update p.values i (CLib.strtod literal).1 }
  | .event body => { p with events := Function.update p.events i body }

/-- The slots filled for the elements of a value array, from index `i`. -/
def storeValues {σ : Type} (p : Parser σ) : ℕ → List Value → Parser σ
  | _, [] => p
  | i, v :: vs => storeValues (v.store p i) (i + 1) vs

section Read

variable {σ : Type} (lim : Limits) (db : DbSession σ) (parseTs : List UInt8 → Option Timestamp)
  {p : Parser σ} {rest : List UInt8}

@[simp] theorem Value.store_rdbuf (v : Value) (i : ℕ) : (v.store p i).rdbuf = p.rdbuf := by
  cases v <;> rfl
@[simp] theorem Value.store_paramids (v : Value) (i : ℕ) : (v.store p i).paramids = p.paramids := by
  cases v <;> rfl
@[simp] theorem Value.store_session (v : Value) (i : ℕ) : (v.store p i).session = p.session := by
  cases v <;> rfl
@[simp] theorem Value.store_calls (v : Value) (i : ℕ) : (v.store p i).calls = p.calls := by
  cases v <;> rfl
@[simp] theorem Value.store_idmap (v : Value) (i : ℕ) : (v.store p i).idmap = p.idmap := by
  cases v <;> rfl

theorem readString_encode {a : LogicalStream} {size : ℕ} {s : List UInt8}
    (hu : a.unread = encodeElement 43 s ++ rest) (hs : fitsString size s) :
    readString size a = .ok (some (s, a.advance (encodeElement 43 s).length)) := by
  simp only [fitsString, decide_eq_true_eq] at hs
  exact readElement_encode hu hs.2 (by simp only [fitting, if_pos hs.1])

theorem readInt_encode {a : LogicalStream} {n : ℕ} (hu : a.unread = encodeElement 58 (decimal n) ++ rest)
    (hn : n < 2 ^ 64) : readInt a = .ok (some (n, a.advance (encodeElement 58 (decimal n)).length)) :=
  readElement_encode hu (cr_not_mem_decimal n) (numeral_decimal hn)

omit db parseTs in
/-- An element of a value array, read from its encoding into its slot. -/
theorem parseElement_encode {v : Value} {i : ℕ} (hu : p.rdbuf.unread = v.encode ++ rest)
    (hf : v.fits lim (p.paramids i)) :
    parseElement lim p i = .ok (true, (v.store p i).withBuf (p.rdbuf.advance v.encode.length)) := by
  cases v with
  | int n =>
    simp only [Value.fits, Bool.and_eq_true, decide_eq_true_eq] at hf
    simp only [parseElement, hf.1, if_true, (nextType_encode hu).trans rfl, parseIntValue,
      readInt_encode hu hf.2]
    rfl
  | float literal =>
    simp only [Value.fits, Bool.and_eq_true, decide_eq_true_eq] at hf
    obtain ⟨hs, hlt⟩ := fitsString_of_fitsTerminated hf.1.2
    simp only [parseElement, hf.1.1, if_true, (nextType_encode hu).trans rfl, parseStringValue,
      readString_encode hu hs, not_le.mpr hlt, hf.2, ne_eq, not_true_eq_false, if_false]
    rfl
  | event body =>
    simp only [Value.fits, Bool.and_eq_true, decide_eq_true_eq, Bool.not_eq_true'] at hf
    simp only [parseElement, hf.1.1, Bool.false_eq_true, if_false, (nextType_encode hu).trans rfl,
      parseEventValue, readString_encode hu hf.1.2, not_le.mpr hf.2]
    rfl

omit db parseTs in
theorem Value.store_withBuf (v : Value) (i : ℕ) (a : LogicalStream) :
    v.store (p.withBuf a) i = (v.store p i).withBuf a := by
  cases v <;> rfl

omit db parseTs in
theorem storeValues_withBuf (vs : List Value) (i : ℕ) (a : LogicalStream) :
    storeValues (p.withBuf a) i vs = (storeValues p i vs).withBuf a := by
  induction vs generalizing p i with
  | nil => rfl
  | cons v vs ih => simp only [storeValues, Value.store_withBuf, ih]

omit db parseTs in
@[simp] theorem storeValues_paramids (vs : List Value) (i : ℕ) :
    (storeValues p i vs).paramids = p.paramids := by
  induction vs generalizing p i with
  | nil => rfl
  | cons v vs ih => simp only [storeValues, ih, Value.store_paramids]

omit db parseTs in
@[simp] theorem storeValues_session (vs : List Value) (i : ℕ) :
    (storeValues p i vs).session = p.session := by
  induction vs generalizing p i with
  | nil => rfl
  | cons v vs ih => simp only [storeValues, ih, Value.store_session]

omit db parseTs in
@[simp] theorem storeValues_calls (vs : List Value) (i : ℕ) :
    (storeValues p i vs).calls = p.calls := by
  induction vs generalizing p i with
  | nil => rfl
  | cons v vs ih => simp only [storeValues, ih, Value.store_calls]

omit db parseTs in
@[simp] theorem storeValues_idmap (vs : List Value) (i : ℕ) :
    (storeValues p i vs).idmap = p.idmap := by
  induction vs generalizing p i with
  | nil => rfl
  | cons v vs ih => simp only [storeValues, ih, Value.store_idmap]

omit db parseTs in
/-- The elements of a value array, read from their encodings into their slots. -/
theorem valuesLoop_encode (vs : List Value) {i : ℕ}
    (hu : p.rdbuf.unread = (vs.map Value.encode).flatten ++ rest)
    (hf : ∀ j (hj : j < vs.length), vs[j].fits lim (p.paramids (i + j))) :
    valuesLoop lim p i vs.length =
      .ok (true, (storeValues p i vs).withBuf
        (p.rdbuf.advance (vs.map Value.encode).flatten.length)) := by
  induction vs generalizing p i with
  | nil => rfl
  | cons v vs ih =>
    have hu' : p.rdbuf.unread = v.encode ++ ((vs.map Value.encode).flatten ++ rest) := by
      simpa only [List.map_cons, List.flatten_cons, List.append_assoc] using hu
    have hv := parseElement_encode lim (i := i) hu' (by simpa using hf 0 (Nat.zero_lt_succ _))
    have ih' := ih (p := (v.store p i).withBuf (p.rdbuf.advance v.encode.length)) (i := i + 1)
      (by simpa only [Parser.withBuf_rdbuf] using unread_advance_append hu')
      (fun j hj => by simpa only [Parser.withBuf, Value.store_paramids, Nat.add_right_comm i 1 j,
        Nat.add_assoc] using hf (j + 1) (Nat.succ_lt_succ hj))
    rw [List.length_cons, valuesLoop, hv]
    dsimp only
    rw [ih', storeValues_withBuf, Parser.withBuf_rdbuf, advance_advance]
    simp only [storeValues, List.map_cons, List.flatten_cons, List.length_append]
    rfl

omit db parseTs in
/-- A single value is read bare, as element `0` of an array would be. -/
theorem parseValues_one {v : Value} (hu : p.rdbuf.unread = v.encode ++ rest)
    (hf : v.fits lim (p.paramids 0)) : parseValues lim p 1 = parseElement lim p 0 := by
  cases v with
  | int n =>
    simp only [Value.fits, Bool.and_eq_true] at hf
    simp only [parseValues, parseElement, nextType_encode hu, hf.1, if_true]
    rfl
  | float literal =>
    simp only [Value.fits, Bool.and_eq_true] at hf
    simp only [parseValues, parseElement, nextType_encode hu, hf.1.1, if_true]
    rfl
  | event body =>
    simp only [Value.fits, Bool.and_eq_true, Bool.not_eq_true'] at hf
    simp only [parseValues, parseElement, nextType_encode hu, hf.1.1,
      Bool.false_eq_true, if_true, if_false]
    rfl

theorem encodeValues_of_ne {vs : List Value} (hs : ∀ v, vs ≠ [v]) :
    encodeValues vs = encodeElement 42 (decimal vs.length) ++ (vs.map Value.encode).flatten := by
  unfold encodeValues
  split
  · exact absurd rfl (hs _)
  · rfl

omit db parseTs in
/-- The values of a unit, read from their encoding into their slots. -/
theorem parseValues_encode {vs : List Value} (hu : p.rdbuf.unread = encodeValues vs ++ rest)
    (hlen : vs.length < 2 ^ 31) (hf : ∀ j (hj : j < vs.length), vs[j].fits lim (p.paramids j)) :
    parseValues lim p vs.length =
      .ok (true, (storeValues p 0 vs).withBuf (p.rdbuf.advance (encodeValues vs).length)) := by
  by_cases hs : ∃ v, vs = [v]
  · obtain ⟨v, rfl⟩ := hs
    have hv : v.fits lim (p.paramids 0) := hf 0 (Nat.zero_lt_succ _)
    rw [List.length_singleton, parseValues_one lim hu hv, parseElement_encode lim hu hv]
    rfl
  · have he := encodeValues_of_ne fun v h => hs ⟨v, h⟩
    rw [he, List.append_assoc] at hu
    have ha := readElement_encode (f := numeral) hu (cr_not_mem_decimal _)
      (numeral_decimal (lt_trans hlen (by decide)))
    have hl := valuesLoop_encode lim vs (p := p.withBuf (p.rdbuf.advance _)) (i := 0)
      (by simpa only [Parser.withBuf_rdbuf] using unread_advance_append hu)
      (fun j hj => by simpa only [Nat.zero_add] using hf j hj)
    simp only [parseValues, (nextType_encode hu).trans rfl, readArraySize, ha,
      ReadBuffer.toInt_of_lt hlen, ne_eq, not_true_eq_false, if_false, hl, storeValues_withBuf,
      Parser.withBuf_rdbuf, advance_advance, he, List.length_append]
    rfl

omit db parseTs in
theorem columnSample_store_of_ne (v : Value) {i k : ℕ} (h : k ≠ i) (ts : Timestamp) :
    columnSample lim (v.store p i) ts k = columnSample lim p ts k := by
  cases v <;> simp only [columnSample, Value.store, Function.update_noteq h]

omit db parseTs in
/-- A stored slot makes the sample its value stands for. -/
theorem columnSample_store (hlim : lim.maxEventLen + lim.sizeofSample ≤ 2 ^ 16) {v : Value}
    {i : ℕ} (hf : v.fits lim (p.paramids i)) (ts : Timestamp) :
    columnSample lim (v.store p i) ts i = v.sample lim (p.paramids i) ts := by
  cases v with
  | int n =>
    simp only [Value.fits, Bool.and_eq_true] at hf
    simp only [columnSample, Value.store, hf.1, if_true, Function.update_same, Value.sample]
  | float literal =>
    simp only [Value.fits, Bool.and_eq_true] at hf
    simp only [columnSample, Value.store, hf.1.1, if_true, Function.update_same, Value.sample]
  | event body =>
    simp only [Value.fits, Bool.and_eq_true, Bool.not_eq_true', decide_eq_true_eq] at hf
    simp only [columnSample, Value.store, hf.1.1, Bool.false_eq_true, if_false,
      Function.update_same, Value.sample, Nat.mod_eq_of_lt (show body.length + lim.sizeofSample <
        2 ^ 16 by omega)]

omit db parseTs in
theorem columnSample_storeValues_of_lt (vs : List Value) {i k : ℕ} (h : k < i) (ts : Timestamp) :
    columnSample lim (storeValues p i vs) ts k = columnSample lim p ts k := by
  induction vs generalizing p i with
  | nil => rfl
  | cons v vs ih =>
    rw [storeValues, ih (by omega), columnSample_store_of_ne lim v (by omega)]

omit db parseTs in
/-- The slots of a value array make the samples of its values. -/
theorem columnSample_storeValues (hlim : lim.maxEventLen + lim.sizeofSample ≤ 2 ^ 16)
    (vs : List Value) {i j : ℕ} (hj : j < vs.length) (hf : vs[j].fits lim (p.paramids (i + j)))
    (ts : Timestamp) :
    columnSample lim (storeValues p i vs) ts (i + j) = vs[j].sample lim (p.paramids (i + j)) ts := by
  induction vs generalizing p i j with
  | nil => exact absurd hj (Nat.not_lt_zero _)
  | cons v vs ih =>
    cases j with
    | zero =>
      simp only [Nat.add_zero, List.getElem_cons_zero] at hf ⊢
      rw [storeValues, columnSample_storeValues_of_lt lim vs (Nat.lt_add_one i)]
      exact columnSample_store lim hlim hf ts
    | succ j =>
      rw [storeValues, show i + (j + 1) = i + 1 + j by omega]
      have := ih (p := v.store p i) (i := i + 1) (Nat.lt_of_succ_lt_succ hj)
        (by simpa only [Value.store_paramids, show i + 1 + j = i + (j + 1) by omega] using hf)
      simpa only [Value.store_paramids, show i + 1 + j = i + (j + 1) by omega] using this

omit parseTs in
/-- The columns' writes are the writes of their samples, one after the other. -/
theorem writeColumns_eq (ts : Timestamp) (xs : List Sample) {i : ℕ}
    (hx : ∀ j (hj : j < xs.length), columnSample lim p ts (i + j) = xs[j]) :
    writeColumns lim db p ts i xs.length =
      (writeAll db p.session xs).map fun r => { p with session := r.1, calls := p.calls ++ r.2 } := by
  induction xs generalizing p i with
  | nil => simp only [List.length_nil, writeColumns, writeAll, Except.map, List.append_nil]
  | cons x xs ih =>
    have hx₀ : columnSample lim p ts i = x := by simpa using hx 0 (Nat.zero_lt_succ _)
    simp only [List.length_cons, writeColumns, hx₀, writeAll]
    split_ifs with hw
    · rfl
    · have hx' : ∀ j (hj : j < xs.length), columnSample lim p ts (i + 1 + j) = xs[j] := fun j hj => by
        simpa [Nat.add_right_comm i 1 j, Nat.add_assoc] using hx (j + 1) (Nat.succ_lt_succ hj)
      rw [ih (p := { p with session := (db.write p.session x).2, calls := p.calls ++ [.write x] })
        (i := i + 1) hx']
      rcases writeAll db (db.write p.session x).2 xs with e | ⟨s', cs⟩
      · rfl
      · simp only [Except.map, List.append_assoc, List.singleton_append]

omit parseTs in
/-- A series name, read from its encoding and resolved to its row of ids. -/
theorem parseIds_encode {name : List UInt8} (hu : p.rdbuf.unread = encodeElement 43 name ++ rest)
    (hn : fitsString lim.stringLengthMax name)
    (hrow : (db.nameToParamIdList p.session name lim.maxRowWidth).1 ≠ []) :
    parseIds lim db p = .ok (some (db.nameToParamIdList p.session name lim.maxRowWidth).1.length,
      { p with rdbuf := p.rdbuf.advance (encodeElement 43 name).length,
               session := (db.nameToParamIdList p.session name lim.maxRowWidth).2,
               calls := p.calls ++ [.nameToParamIdList name],
               paramids := writeRow p.paramids
                 (db.nameToParamIdList p.session name lim.maxRowWidth).1 }) := by
  simp only [parseIds, nextType_encode hu, readString_encode hu hn]
  simp only [typeOfByte, if_true, hrow, if_false]

omit parseTs in
/-- A user id, read from its encoding and resolved through `idmap_`. -/
theorem parseIds_encodeUid {uid : ℕ} (hu : p.rdbuf.unread = encodeElement 58 (decimal uid) ++ rest)
    (huid : uid < 2 ^ 64) (hrow : readDict p.idmap uid lim.maxRowWidth ≠ []) :
    parseIds lim db p = .ok (some (readDict p.idmap uid lim.maxRowWidth).length,
      { p with rdbuf := p.rdbuf.advance (encodeElement 58 (decimal uid)).length,
               paramids := writeRow p.paramids (readDict p.idmap uid lim.maxRowWidth) }) := by
  have hk : nextType p.rdbuf = .integer := (nextType_encode hu).trans rfl
  simp only [parseIds, hk, readInt_encode hu huid, hrow, if_false]

omit lim db in
/-- A timestamp, read from its encoding. -/
theorem parseTimestamp_encode {st : Stamp} {ts : Timestamp} (hu : p.rdbuf.unread = st.encode ++ rest)
    (hf : st.fits parseTs) (ht : st.time parseTs = some ts) :
    parseTimestamp parseTs p = .ok (some ts, p.withBuf (p.rdbuf.advance st.encode.length)) := by
  cases st with
  | nanos n =>
    cases ht
    simp only [Stamp.fits, decide_eq_true_eq] at hf
    simp only [parseTimestamp, nextType_encode hu, readInt_encode hu hf]
    rfl
  | text t =>
    simp only [Stamp.fits, Bool.and_eq_true] at hf
    obtain ⟨hs, hlt⟩ := fitsString_of_fitsTerminated hf.1
    simp only [Stamp.time] at ht
    simp only [parseTimestamp, nextType_encode hu, readString_encode hu hs, not_le.mpr hlt, if_false, ht]
    rfl

/-- The series a row of ids names, one element of the row per index. -/
theorem writeRow_getElem (f : ℕ → ParamId) (ids : List ParamId) {j : ℕ} (hj : j < ids.length) :
    writeRow f ids j = ids[j] := by
  simp only [writeRow, List.getD_eq_getElem?_getD, List.getElem?_eq_getElem hj, Option.getD_some]

omit parseTs in
/-- A key, read from its encoding and resolved as the protocol resolves it, when `idmap_` reads
back the dictionary `d`: `parse_ids` writes the key's row into `paramids_` and moves past the
key. -/
theorem parseIds_resolve {d : Dict}
    (hdict : ∀ uid row, d.lookup uid = some row → readDict p.idmap uid lim.maxRowWidth = row)
    {k : SeriesKey} {row : List ParamId} {s₁ : σ} {cs₁ : List DbCall}
    (hu : p.rdbuf.unread = k.encode ++ rest) (hk : k.fits lim)
    (hres : k.resolve lim db d p.session = some (row, s₁, cs₁)) (hne : row ≠ []) :
    ∃ q, parseIds lim db p = .ok (some row.length, q) ∧
      (∀ j (hj : j < row.length), q.paramids j = row[j]) ∧ q.session = s₁ ∧
      q.calls = p.calls ++ cs₁ ∧ q.idmap = p.idmap ∧ q.rdbuf = p.rdbuf.advance k.encode.length := by
  cases k with
  | name n =>
    simp only [SeriesKey.resolve, Option.some.injEq, Prod.mk.injEq] at hres
    obtain ⟨rfl, rfl, rfl⟩ := hres
    exact ⟨_, parseIds_encode lim db hu hk hne, fun j hj => writeRow_getElem _ _ hj, rfl, rfl, rfl, rfl⟩
  | uid u =>
    obtain ⟨row', hl, he⟩ := Option.map_eq_some'.1 hres
    simp only [Prod.mk.injEq] at he
    obtain ⟨rfl, rfl, rfl⟩ := he
    have hr := hdict u row' hl
    have hi := parseIds_encodeUid lim db hu (by simpa only [SeriesKey.fits, decide_eq_true_eq] using hk)
      (hr ▸ hne)
    rw [hr] at hi
    exact ⟨_, hi, fun j hj => writeRow_getElem _ _ hj, rfl, (List.append_nil _).symm, rfl, rfl⟩

omit db parseTs in
/-- Each value of a fitting unit fits the series it goes to. -/
theorem Value.fits_getElem_of_all {row : List ParamId} {vs : List Value}
    (hall : (List.zipWith (Value.fits lim) row vs).all id) (hlen : row.length = vs.length)
    {j : ℕ} (hj : j < vs.length) : vs[j].fits lim row[j] := by
  have hz : j < (List.zipWith (Value.fits lim) row vs).length := by
    simp only [List.length_zipWith, hlen, Nat.min_self, hj]
  simpa only [List.getElem_zipWith, id] using List.all_eq_true.1 hall _ (List.getElem_mem hz)

omit db parseTs in
theorem KeyedUnit.length_samples {row : List ParamId} {u : KeyedUnit} (ts : Timestamp)
    (hlen : row.length = u.values.length) : (u.samples lim row ts).length = u.values.length := by
  simp only [KeyedUnit.samples, List.length_zipWith, hlen, Nat.min_self]

/-- One unit, read from its encoding, when `idmap_` reads back the dictionary `d`: its key is
resolved as the protocol resolves it, its values are written to their series as the samples they
stand for, in order, and the unit is consumed.  A failed write throws its `DatabaseError`. -/
theorem dataStep_keyed (hlim : lim.maxEventLen + lim.sizeofSample ≤ 2 ^ 16) {d : Dict}
    (hdict : ∀ uid row, d.lookup uid = some row → readDict p.idmap uid lim.maxRowWidth = row)
    {u : KeyedUnit} {row : List ParamId} {s₁ : σ} {cs₁ : List DbCall} {ts : Timestamp}
    (hu : p.rdbuf.unread = u.encode ++ rest) (hres : u.key.resolve lim db d p.session = some (row, s₁, cs₁))
    (ht : u.stamp.time parseTs = some ts) (hf : u.fits lim parseTs row) :
    (∀ e, writeAll db s₁ (u.samples lim row ts) = .error e →
      dataStep lim db parseTs p = .exit (.error e)) ∧
    (∀ s cs, writeAll db s₁ (u.samples lim row ts) = .ok (s, cs) →
      ∃ q, dataStep lim db parseTs p = .next q ∧ q.session = s ∧ q.calls = p.calls ++ cs₁ ++ cs ∧
        q.idmap = p.idmap ∧ q.rdbuf = (p.rdbuf.advance u.encode.length).consume) := by
  obtain ⟨k, st, vs⟩ := u
  simp only [KeyedUnit.fits, Bool.and_eq_true, Bool.not_eq_true', decide_eq_true_eq,
    List.isEmpty_eq_false] at hf
  obtain ⟨⟨⟨⟨⟨hk, hst⟩, hne⟩, hlen⟩, hlt⟩, hall⟩ := hf
  have hu₁ : p.rdbuf.unread = k.encode ++ (st.encode ++ (encodeValues vs ++ rest)) := by
    simpa only [KeyedUnit.encode, List.append_assoc] using hu
  obtain ⟨q, hi, hrow, hs, hc, hm, hq⟩ := parseIds_resolve lim db hdict hu₁ hk hres hne
  have hu₂ : q.rdbuf.unread = st.encode ++ (encodeValues vs ++ rest) := hq ▸ unread_advance_append hu₁
  -- each value fits the series `parse_ids` wrote for it
  have hfit : ∀ j (hj : j < vs.length), vs[j].fits lim (q.paramids j) := fun j hj => by
    rw [hrow j (hlen ▸ hj)]; exact Value.fits_getElem_of_all lim hall hlen hj
  rw [dataStep, hi]
  dsimp only
  rw [parseTimestamp_encode parseTs hu₂ hst ht]
  dsimp only
  rw [hlen, parseValues_encode lim (p := q.withBuf (q.rdbuf.advance st.encode.length))
    (unread_advance_append hu₂) hlt hfit]
  dsimp only
  rw [← KeyedUnit.length_samples lim (u := ⟨k, st, vs⟩) ts hlen, writeColumns_eq lim db ts _ ?hx]
  case hx =>
    intro j hj
    have hj' : j < vs.length := KeyedUnit.length_samples lim (u := ⟨k, st, vs⟩) ts hlen ▸ hj
    show columnSample lim (storeValues _ 0 vs) ts (0 + j) = _
    rw [columnSample_storeValues lim hlim vs hj' (by simpa only [Nat.zero_add] using hfit j hj') ts]
    simp only [Parser.withBuf, Nat.zero_add, hrow j (hlen ▸ hj'), KeyedUnit.samples,
      List.getElem_zipWith]
  refine ⟨fun e he => ?_, fun s cs hw => ?_⟩
  · simp only [Parser.consume, Parser.withBuf, storeValues_session, hs, he, Except.map]
  · simp only [Parser.consume, Parser.withBuf, storeValues_session, hs, hw, Except.map]
    refine ⟨_, rfl, rfl, ?_, ?_, ?_⟩
    · simp only [storeValues_calls, hc]
    · simp only [storeValues_idmap, hm]
    · simp only [hq, advance_advance, KeyedUnit.encode, List.length_append, Nat.add_assoc]

end Read

end RESP

end Stdb
