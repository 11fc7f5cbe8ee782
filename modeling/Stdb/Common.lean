import Mathlib.Data.List.Basic
import Mathlib.Algebra.Group.Nat.Basic
import Mathlib.Algebra.Group.Int

/-!
# Common data of the stdb ingestion path

The records the protocol parsers and the column store exchange: `Sample` with its `Payload`,
series ids, timestamps and the status codes of `common::Status`.  `basic.h`, `status.h` and the
limits header are not among the sources, so the numeric limits the parsers use
(`STRING_LENGTH_MAX`, `STDB_LIMITS_MAX_ROW_WIDTH`, `STDB_LIMITS_MAX_EVENT_LEN`,
`LIMITS_MAX_SNAME`, `sizeof(Sample)`) are a record of parameters, `Limits`; every general result
holds for all values of it.

A `double` is kept symbolically: the model records the integer or the decimal text a value was
converted from (`read_int` followed by the implicit `u64 → double` conversion, or `strtod`).
IEEE rounding is not modelled, so two doubles are equal in the model exactly when they were
decoded from the same source.
-/

namespace Stdb

/-- A series id (`ParamId`, a `u64`). -/
abbrev ParamId := ℕ

/-- A timestamp in nanoseconds since the epoch (`Timestamp`, a `u64`). -/
abbrev Timestamp := ℕ

/-- The byte `'\n'`. -/
def nl : UInt8 := 10

/-- The byte `' '`. -/
def space : UInt8 := 32

/-- The byte `'\r'`. -/
def cr : UInt8 := 13

/-- The terminator byte `'\0'`. -/
def nul : UInt8 := 0

/-- The bytes of an ASCII string, as the sources write them in literals. -/
def ascii (s : String) : List UInt8 := s.toList.map fun c => c.toNat.toUInt8

/-- A `double` as the parsers produce it, kept by its source (see the module docstring). -/
inductive Double
  /-- `static_cast<double>` of the `u64` that `RESPStream::read_int` returned. -/
  | ofU64 (n : ℕ)
  /-- `strtod` on exactly these bytes (the literal it consumed). -/
  | ofText (lit : List UInt8)
  /-- A value no parser assigned: an uninitialised array slot or payload field. -/
  | indeterminate
deriving Repr, DecidableEq

/-- `payload.type`; the numeric codes of `PAYLOAD_FLOAT` and `PAYLOAD_EVENT` are not in the
sources, every other code is kept as `other`. -/
inductive PayloadType
  | float
  | event
  | other (code : ℕ)
deriving Repr, DecidableEq

/-- The payload of a sample: the type tag, the `u16` size field, the `float64` field, and the
event body that follows the `Sample` header in memory (`payload.data`). -/
structure Payload where
  type : PayloadType
  size : ℕ
  float64 : Double
  data : List UInt8
deriving Repr, DecidableEq

/-- `Sample`: a series id, a timestamp and a payload. -/
structure Sample where
  paramid : ParamId
  timestamp : Timestamp
  payload : Payload
deriving Repr, DecidableEq

/-- The subset of `common::Status` the modelled code returns or compares with. -/
inductive Status
  | ok
  | badArg
  | badData
  | notFound
  | overflow
  | other (code : ℕ)
deriving Repr, DecidableEq

/-- A call a parser makes on its `DbSession`, recorded by the model in order. -/
inductive DbCall
  /-- `series_to_param_id(name, len, &sample)`. -/
  | seriesToParamId (name : List UInt8)
  /-- `name_to_param_id_list(begin, end, ids, nvalues)`. -/
  | nameToParamIdList (name : List UInt8)
  /-- `write(sample)`. -/
  | write (sample : Sample)
deriving Repr, DecidableEq

/-- The operations of `DbSession` the parsers call, over the session's state `σ`; the class is
not among the sources, so every result holds for every session. -/
structure DbSession (σ : Type) where
  /-- `series_to_param_id(name, len, &sample)`: the status, the id written into
  `sample.paramid`, and the new state. -/
  seriesToParamId : σ → List UInt8 → Status × ParamId × σ
  /-- `name_to_param_id_list(begin, end, ids, nvalues)` on a compound name, at most `nvalues`
  ids: the ids it writes into `ids` and the new state.  Its result is their number, or a value
  `≤ 0` on failure, which the model gives as no ids. -/
  nameToParamIdList : σ → List UInt8 → ℕ → List ParamId × σ
  /-- `write(sample)`. -/
  write : σ → Sample → Status × σ

/-- The session the concrete runs of the OpenTSDB parser use: every name gets the id `id` and
every write succeeds. -/
def DbSession.accepting (id : ParamId) : DbSession Unit :=
  { seriesToParamId := fun _ _ => (.ok, id, ()),
    nameToParamIdList := fun _ _ _ => ([id], ()),
    write := fun _ _ => (.ok, ()) }

/-- The session the concrete runs of the RESP parser use: a compound name gets the ids `table`
lists for it (none when it lists none) and every write succeeds. -/
def DbSession.naming (table : List (List UInt8 × List ParamId)) : DbSession Unit :=
  { seriesToParamId := fun _ _ => (.ok, 0, ()),
    nameToParamIdList := fun _ name _ => ((table.lookup name).getD [], ()),
    write := fun _ _ => (.ok, ()) }

/-- Compile-time limits the modelled code reads; their headers are not among the sources. -/
structure Limits where
  /-- `RESPStream::STRING_LENGTH_MAX`. -/
  stringLengthMax : ℕ
  /-- `STDB_LIMITS_MAX_ROW_WIDTH`. -/
  maxRowWidth : ℕ
  /-- `STDB_LIMITS_MAX_EVENT_LEN`. -/
  maxEventLen : ℕ
  /-- `LIMITS_MAX_SNAME`. -/
  maxSname : ℕ
  /-- `sizeof(Sample)`. -/
  sizeofSample : ℕ
  /-- The OpenTSDB worker's line buffer, `LIMITS_MAX_SNAME + 46` bytes, is a stack array whose
  size `read_line` returns as an `int`. -/
  maxSname_lt : maxSname + 46 < 2 ^ 31

/-- Representative values of the limits, used only by the concrete runs of the model. -/
def Limits.default : Limits :=
  { stringLengthMax := 0x1000, maxRowWidth := 0x100, maxEventLen := 0x1000,
    maxSname := 0x1000, sizeofSample := 40, maxSname_lt := by decide }

/-- `static_cast<i64>(id) > 0`: the test the RESP parser uses to tell a numeric series from an
event series (event ids carry the sign bit). -/
def isFloatId (id : ParamId) : Bool := 0 < id % 2 ^ 64 ∧ id % 2 ^ 64 < 2 ^ 63

/-- `u32` wrap-around. -/
def u32 (n : ℕ) : ℕ := n % 2 ^ 32

/-- `u32` subtraction `a - b` of two `u32` values. -/
def sub32 (a b : ℕ) : ℕ := u32 (a + 2 ^ 32 - b)

theorem u32_of_lt {n : ℕ} (h : n < 2 ^ 32) : u32 n = n := Nat.mod_eq_of_lt h

theorem u32_lt (n : ℕ) : u32 n < 2 ^ 32 := Nat.mod_lt _ (Nat.two_pow_pos _)

theorem sub32_of_le {a b : ℕ} (hb : b ≤ a) (ha : a < 2 ^ 32) : sub32 a b = a - b := by
  unfold sub32 u32; omega

/-- What a lookup in an association list (an id map of the sources) finds is one of its
pairs. -/
theorem mem_of_lookup_eq_some {α β : Type} [BEq α] [LawfulBEq α] {m : List (α × β)} {k : α} {b : β}
    (h : m.lookup k = some b) : (k, b) ∈ m := by
  obtain ⟨l₁, l₂, rfl, -⟩ := List.lookup_eq_some_iff.1 h
  exact List.mem_append_right _ (List.mem_cons_self _ _)

end Stdb
