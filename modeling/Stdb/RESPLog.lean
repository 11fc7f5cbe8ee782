import Stdb.RESPPush

/-!
# The log of calls never steers the parser

The model records the calls the parser makes on its session in `calls`.  No parse function reads
that log, and each only appends to it: a run from a parser with more calls in its log is the
same run with those calls in front (`parseIds_logAfter` and the lemmas beside it).  Parsers that
differ only in their logs, with the same writes in them (`Parser.Equiv`), therefore run alike
(`parseDict_equiv`, `dataLoop_equiv`, `worker_equiv`).

A unit that `parse_next` retries repeats the session's name lookups; these lemmas are what lets
a run with the retry be compared with a run without it.  The turns of the two loops are split
here at the calls whose results they branch on (`dataStep_eq`, `dictStep_of_array`), so that two runs
that drift apart inside a turn can be compared on the rest of it.
-/

namespace Stdb

namespace RESP

open LogicalStream

/-- The sample of a `write` call. -/
def DbCall.written : DbCall → Option Sample
  | .write s => some s
  | _ => none

/-- The samples a log of calls wrote, in order. -/
def writes (calls : List DbCall) : List Sample := calls.filterMap DbCall.written

@[simp] theorem writes_append (cs ds : List DbCall) : writes (cs ++ ds) = writes cs ++ writes ds :=
  List.filterMap_append ..

@[simp] theorem writes_lookup (name : List UInt8) : writes [.nameToParamIdList name] = [] := rfl

namespace Parser

variable {σ : Type}

/-- The parser with the calls `cs` made before its own. -/
def logAfter (p : Parser σ) (cs : List DbCall) : Parser σ := { p with calls := cs ++ p.calls }

@[simp] theorem logAfter_calls (p : Parser σ) (cs : List DbCall) :
    (p.logAfter cs).calls = cs ++ p.calls := rfl
@[simp] theorem logAfter_rdbuf (p : Parser σ) (cs : List DbCall) : (p.logAfter cs).rdbuf = p.rdbuf :=
  rfl
@[simp] theorem logAfter_session (p : Parser σ) (cs : List DbCall) :
    (p.logAfter cs).session = p.session := rfl
@[simp] theorem logAfter_idmap (p : Parser σ) (cs : List DbCall) : (p.logAfter cs).idmap = p.idmap :=
  rfl
@[simp] theorem logAfter_paramids (p : Parser σ) (cs : List DbCall) :
    (p.logAfter cs).paramids = p.paramids := rfl
@[simp] theorem logAfter_values (p : Parser σ) (cs : List DbCall) :
    (p.logAfter cs).values = p.values := rfl
@[simp] theorem logAfter_events (p : Parser σ) (cs : List DbCall) :
    (p.logAfter cs).events = p.events := rfl
@[simp] theorem logAfter_discard (p : Parser σ) (cs : List DbCall) :
    (p.logAfter cs).discard = p.discard.logAfter cs := rfl
@[simp] theorem logAfter_consume (p : Parser σ) (cs : List DbCall) :
    (p.logAfter cs).consume = p.consume.logAfter cs := rfl
@[simp] theorem logAfter_withBuf (p : Parser σ) (cs : List DbCall) (a : LogicalStream) :
    (p.logAfter cs).withBuf a = (p.withBuf a).logAfter cs := rfl

/-- Two parsers that differ only in their logs, with the same writes in them. -/
def Equiv (p q : Parser σ) : Prop :=
  { p with calls := [] } = { q with calls := [] } ∧ writes p.calls = writes q.calls

theorem Equiv.refl (p : Parser σ) : p.Equiv p := ⟨rfl, rfl⟩

theorem Equiv.symm {p q : Parser σ} (h : p.Equiv q) : q.Equiv p := ⟨h.1.symm, h.2.symm⟩

theorem Equiv.trans {p q r : Parser σ} (h₁ : p.Equiv q) (h₂ : q.Equiv r) : p.Equiv r :=
  ⟨h₁.1.trans h₂.1, h₁.2.trans h₂.2⟩

/-- Logs with the same writes in front of one parser. -/
theorem equiv_logAfter (r : Parser σ) {cp cq : List DbCall} (hw : writes cp = writes cq) :
    (r.logAfter cp).Equiv (r.logAfter cq) :=
  ⟨rfl, by simp [hw]⟩

/-- Equivalent parsers are one parser with two logs of the same writes in front. -/
theorem Equiv.exists_logAfter {p q : Parser σ} (h : p.Equiv q) :
    ∃ (r : Parser σ) (cp cq : List DbCall), p = r.logAfter cp ∧ q = r.logAfter cq ∧ writes cp = writes cq := by
  refine ⟨{ p with calls := [] }, p.calls, q.calls, ?_, ?_, h.2⟩
  · simp [logAfter]
  · rw [h.1]; simp [logAfter]

theorem Equiv.push {p q : Parser σ} (h : p.Equiv q) (v : List UInt8) : (p.push v).Equiv (q.push v) :=
  ⟨congrArg (Parser.push · v) h.1, h.2⟩

end Parser

/-! ### Relating two runs -/

section Rel

variable {σ α : Type}

/-- Two results related by `R`: the same exception, or related values. -/
def ExceptRel (R : α → α → Prop) : Except Exception α → Except Exception α → Prop
  | .ok x, .ok y => R x y
  | .error e, .error e' => e = e'
  | _, _ => False

/-- Two outcomes of a parse function: the same value, and equivalent parsers. -/
def OutEquiv (x y : α × Parser σ) : Prop := x.1 = y.1 ∧ x.2.Equiv y.2

/-- Two turns that go on from equivalent parsers, or exit with results related by `R`. -/
def TurnRel (R : α → α → Prop) : Turn σ α → Turn σ α → Prop
  | .next p, .next q => p.Equiv q
  | .exit r, .exit r' => ExceptRel R r r'
  | _, _ => False

theorem ExceptRel.refl {R : α → α → Prop} (hR : ∀ x, R x x) : ∀ r, ExceptRel R r r
  | .ok x => hR x
  | .error _ => rfl

theorem OutEquiv.refl (x : α × Parser σ) : OutEquiv x x := ⟨rfl, .refl _⟩

theorem ExceptRel.trans {R : α → α → Prop} (hR : ∀ x y z, R x y → R y z → R x z)
    {r r' r'' : Except Exception α} (h₁ : ExceptRel R r r') (h₂ : ExceptRel R r' r'') :
    ExceptRel R r r'' := by
  rcases r with _ | x <;> rcases r' with _ | y <;> rcases r'' with _ | z <;>
    simp only [ExceptRel] at h₁ h₂ ⊢
  · exact h₁.trans h₂
  · exact hR x y z h₁ h₂

theorem ExceptRel.exists_ok {R : α → α → Prop} {r : Except Exception α} {y : α}
    (h : ExceptRel R r (.ok y)) : ∃ x, r = .ok x ∧ R x y := by
  rcases r with e | x
  · exact h.elim
  · exact ⟨x, rfl, h⟩

theorem OutEquiv.trans {x y z : α × Parser σ} (h₁ : OutEquiv x y) (h₂ : OutEquiv y z) :
    OutEquiv x z :=
  ⟨h₁.1.trans h₂.1, h₁.2.trans h₂.2⟩

/-- A result with the calls `cs` in front of its parser's log. -/
def outAfter (cs : List DbCall) (x : α × Parser σ) : α × Parser σ := (x.1, x.2.logAfter cs)

@[simp] theorem outAfter_mk (cs : List DbCall) (x : α) (p : Parser σ) :
    outAfter cs (x, p) = (x, p.logAfter cs) := rfl

variable {p q : Parser σ}

/-- A parse function that never reads the log runs alike from equivalent parsers. -/
theorem equiv_of_logAfter (F : Parser σ → Except Exception (α × Parser σ)) (hF : ∀ p cs, F (p.logAfter cs) = (F p).map (outAfter cs))
    (h : p.Equiv q) : ExceptRel OutEquiv (F p) (F q) := by
  obtain ⟨r, cp, cq, rfl, rfl, hw⟩ := h.exists_logAfter
  rw [hF, hF]
  rcases F r with e | ⟨x, r'⟩
  · rfl
  · exact ⟨rfl, Parser.equiv_logAfter r' hw⟩

theorem equiv_of_logAfter' (G : Parser σ → Except Exception (Parser σ)) (hG : ∀ p cs, G (p.logAfter cs) = (G p).map (·.logAfter cs))
    (h : p.Equiv q) : ExceptRel Parser.Equiv (G p) (G q) := by
  obtain ⟨r, cp, cq, rfl, rfl, hw⟩ := h.exists_logAfter
  rw [hG, hG]
  rcases G r with e | r'
  · rfl
  · exact Parser.equiv_logAfter r' hw

end Rel

/-! ### Every parse function carries the log through -/

section Frame

variable {σ : Type} (lim : Limits) (db : DbSession σ) (parseTs : List UInt8 → Option Timestamp)
  (p : Parser σ) (cs : List DbCall)

omit db parseTs in
theorem parseIntValue_logAfter (i : ℕ) :
    parseIntValue (p.logAfter cs) i = (parseIntValue p i).map (outAfter cs) := by
  simp only [parseIntValue, Parser.logAfter_rdbuf]
  rcases readInt p.rdbuf with _ | _ | _ <;> rfl

omit db parseTs in
theorem parseStringValue_logAfter (i : ℕ) :
    parseStringValue (p.logAfter cs) i = (parseStringValue p i).map (outAfter cs) := by
  simp only [parseStringValue, Parser.logAfter_rdbuf]
  rcases readString 64 p.rdbuf with _ | _ | _
  case ok.some => dsimp only; split <;> [rfl; split <;> rfl]
  all_goals rfl

omit db parseTs in
theorem parseEventValue_logAfter (i : ℕ) :
    parseEventValue lim (p.logAfter cs) i = (parseEventValue lim p i).map (outAfter cs) := by
  simp only [parseEventValue, Parser.logAfter_rdbuf]
  rcases readString lim.stringLengthMax p.rdbuf with _ | _ | _
  case ok.some => dsimp only; split <;> rfl
  all_goals rfl

omit db parseTs in
theorem parseElement_logAfter (i : ℕ) :
    parseElement lim (p.logAfter cs) i = (parseElement lim p i).map (outAfter cs) := by
  simp only [parseElement, Parser.logAfter_rdbuf, Parser.logAfter_paramids,
    parseIntValue_logAfter, parseStringValue_logAfter, parseEventValue_logAfter]
  split_ifs <;> cases nextType p.rdbuf <;> rfl

omit db parseTs in
theorem valuesLoop_logAfter (i k : ℕ) :
    valuesLoop lim (p.logAfter cs) i k = (valuesLoop lim p i k).map (outAfter cs) := by
  induction k generalizing p i with
  | zero => rfl
  | succ k ih =>
    simp only [valuesLoop, parseElement_logAfter]
    rcases parseElement lim p i with _ | ⟨_ | _, q⟩
    · rfl
    · rfl
    · exact ih q (i + 1)

omit db parseTs in
theorem parseValues_logAfter (w : ℕ) :
    parseValues lim (p.logAfter cs) w = (parseValues lim p w).map (outAfter cs) := by
  simp only [parseValues, Parser.logAfter_rdbuf, Parser.logAfter_paramids,
    parseIntValue_logAfter, parseStringValue_logAfter, parseEventValue_logAfter,
    Parser.logAfter_withBuf, valuesLoop_logAfter]
  cases nextType p.rdbuf <;> dsimp only
  case integer => split <;> rfl
  case string => split <;> [split <;> rfl; rfl]
  case array =>
    rcases readArraySize p.rdbuf with _ | _ | _ <;> try rfl
    dsimp only; split <;> rfl
  all_goals rfl

omit parseTs in
theorem parseIds_logAfter :
    parseIds lim db (p.logAfter cs) = (parseIds lim db p).map (outAfter cs) := by
  simp only [parseIds, Parser.logAfter_rdbuf, Parser.logAfter_session, Parser.logAfter_idmap,
    Parser.logAfter_paramids, Parser.logAfter_calls]
  cases nextType p.rdbuf
  case string =>
    rcases readString lim.stringLengthMax p.rdbuf with _ | _ | _
    case ok.some => dsimp only; split <;> simp [Except.map, Parser.logAfter]
    all_goals rfl
  case integer =>
    rcases readInt p.rdbuf with _ | _ | _
    case ok.some => dsimp only; split <;> rfl
    all_goals rfl
  all_goals rfl

omit lim db in
theorem parseTimestamp_logAfter :
    parseTimestamp parseTs (p.logAfter cs) = (parseTimestamp parseTs p).map (outAfter cs) := by
  simp only [parseTimestamp, Parser.logAfter_rdbuf, Parser.logAfter_withBuf]
  cases nextType p.rdbuf <;> try rfl
  · rcases readString 28 p.rdbuf with _ | _ | ⟨text, a⟩ <;> try rfl
    dsimp only; split <;> [rfl; cases parseTs text <;> rfl]
  · rcases readInt p.rdbuf with _ | _ | _ <;> rfl

omit parseTs in
theorem writeColumns_logAfter (ts : Timestamp) (i k : ℕ) :
    writeColumns lim db (p.logAfter cs) ts i k = (writeColumns lim db p ts i k).map (·.logAfter cs) := by
  induction k generalizing p i with
  | zero => rfl
  | succ k ih =>
    have hc : columnSample lim (p.logAfter cs) ts i = columnSample lim p ts i := rfl
    simp only [writeColumns, hc, Parser.logAfter_session, Parser.logAfter_calls]
    split_ifs
    · rfl
    · rw [← ih]; simp [Parser.logAfter]

omit parseTs in
theorem dictPairs_logAfter (k : ℕ) :
    dictPairs lim db (p.logAfter cs) k = (dictPairs lim db p k).map (outAfter cs) := by
  induction k generalizing p with
  | zero => rfl
  | succ k ih =>
    simp only [dictPairs, Parser.logAfter_rdbuf, Parser.logAfter_session, Parser.logAfter_calls]
    cases nextType p.rdbuf <;> try rfl
    rcases readString lim.stringLengthMax p.rdbuf with _ | _ | ⟨name, a⟩ <;> try rfl
    dsimp only
    split_ifs
    · simp [Except.map, Parser.logAfter]
    cases nextType a <;> try simp [Except.map, Parser.logAfter]
    rcases readInt a with _ | _ | ⟨uid, a'⟩ <;> try simp [Except.map, Parser.logAfter]
    exact ih ⟨a', _, p.paramids, p.values, p.events, _, p.calls ++ [.nameToParamIdList name]⟩

variable {p cs} {q : Parser σ}

omit db parseTs in
theorem parseValues_equiv (h : p.Equiv q) (w : ℕ) :
    ExceptRel OutEquiv (parseValues lim p w) (parseValues lim q w) :=
  equiv_of_logAfter (parseValues lim · w) (parseValues_logAfter lim · · w) h

omit parseTs in
theorem dictPairs_equiv (h : p.Equiv q) (k : ℕ) :
    ExceptRel OutEquiv (dictPairs lim db p k) (dictPairs lim db q k) :=
  equiv_of_logAfter (dictPairs lim db · k) (dictPairs_logAfter lim db · · k) h

end Frame

/-! ### The turns, split at the calls they branch on -/

namespace Parser

variable {σ : Type} {p q : Parser σ}

theorem Equiv.rdbuf_eq (h : p.Equiv q) : p.rdbuf = q.rdbuf := (congrArg Parser.rdbuf h.1 :)

theorem Equiv.discard (h : p.Equiv q) : p.discard.Equiv q.discard :=
  ⟨congrArg Parser.discard h.1, h.2⟩

theorem Equiv.consume (h : p.Equiv q) : p.consume.Equiv q.consume :=
  ⟨congrArg Parser.consume h.1, h.2⟩

theorem Equiv.withBuf (h : p.Equiv q) (a : LogicalStream) : (p.withBuf a).Equiv (q.withBuf a) :=
  ⟨congrArg (Parser.withBuf · a) h.1, h.2⟩

end Parser

section Turns

variable {σ α β : Type} (lim : Limits) (db : DbSession σ) (parseTs : List UInt8 → Option Timestamp)

/-- A turn that exits with the exception of `r`, or goes on as `k` says from its value. -/
def Turn.andThen (r : Except Exception α) (k : α → Turn σ β) : Turn σ β :=
  match r with
  | .error e => .exit (.error e)
  | .ok x => k x

theorem Turn.andThen_rel {R : α → α → Prop} {S : β → β → Prop} {r r' : Except Exception α}
    {k k' : α → Turn σ β} (h : ExceptRel R r r') (hk : ∀ x y, R x y → TurnRel S (k x) (k' y)) :
    TurnRel S (Turn.andThen r k) (Turn.andThen r' k') := by
  rcases r with e | x <;> rcases r' with e' | y <;> simp only [ExceptRel] at h
  · exact h
  · exact hk x y h

/-- The end of a unit: its columns are written from the consumed state. -/
def writeTurn (w : ℕ) (ts : Timestamp) (p : Parser σ) : Turn σ (Parser σ) :=
  Turn.andThen (writeColumns lim db p.consume ts 0 w) .next

/-- The data loop's turn once `parse_values` returned. -/
def valuesTurn (w : ℕ) (ts : Timestamp) : Bool × Parser σ → Turn σ (Parser σ)
  | (false, p) => .exit (.ok p.discard)
  | (true, p) => writeTurn lim db w ts p

/-- The data loop's turn once `parse_timestamp` returned. -/
def timestampTurn (w : ℕ) : Option Timestamp × Parser σ → Turn σ (Parser σ)
  | (none, p) => .exit (.ok p.discard)
  | (some ts, p) => Turn.andThen (parseValues lim p w) (valuesTurn lim db w ts)

/-- The data loop's turn once `parse_ids` returned. -/
def idsTurn : Option ℕ × Parser σ → Turn σ (Parser σ)
  | (none, p) => .exit (.ok p.discard)
  | (some w, p) => Turn.andThen (parseTimestamp parseTs p) (timestampTurn lim db w)

/-- `parse_dict`'s turn once the loop over the pairs returned. -/
def pairsTurn : Bool × Parser σ → Turn σ (Bool × Parser σ)
  | (false, p) => .exit (.ok (false, p.discard))
  | (true, p) => .next p.consume

theorem dataStep_eq (p : Parser σ) :
    dataStep lim db parseTs p = Turn.andThen (parseIds lim db p) (idsTurn lim db parseTs) := by
  unfold dataStep
  rcases parseIds lim db p with _ | ⟨_ | w, p₁⟩ <;> try rfl
  dsimp only [Turn.andThen, idsTurn]
  rcases parseTimestamp parseTs p₁ with _ | ⟨_ | ts, p₂⟩ <;> try rfl
  dsimp only [Turn.andThen, timestampTurn]
  rcases parseValues lim p₂ w with _ | ⟨_ | _, p₃⟩ <;> try rfl
  dsimp only [Turn.andThen, valuesTurn, writeTurn]
  rcases writeColumns lim db p₃.consume ts 0 w with _ | _ <;> rfl

omit parseTs in
/-- A dictionary array of an even number of elements: the rest of the turn is its pairs'. -/
theorem dictStep_of_array {p : Parser σ} {n : ℕ} {a : LogicalStream} (hk : nextType p.rdbuf = .array)
    (hr : readArraySize p.rdbuf = .ok (some (n, a))) (he : n % 2 = 0) :
    dictStep lim db p = Turn.andThen (dictPairs lim db (p.withBuf a) (n / 2)) pairsTurn := by
  simp only [dictStep, hk, hr, he, ne_eq, not_true_eq_false, if_false]
  rcases dictPairs lim db (p.withBuf a) (n / 2) with _ | ⟨_ | _, _⟩ <;> rfl

variable {p q : Parser σ}

theorem writeTurn_equiv {w : ℕ} {ts : Timestamp} (h : p.Equiv q) :
    TurnRel Parser.Equiv (writeTurn lim db w ts p) (writeTurn lim db w ts q) :=
  Turn.andThen_rel (equiv_of_logAfter' (writeColumns lim db · ts 0 w)
    (writeColumns_logAfter lim db · · ts 0 w) h.consume)
    fun _ _ => id

theorem valuesTurn_rel {w : ℕ} {ts : Timestamp} {x y : Bool × Parser σ} (h : OutEquiv x y) :
    TurnRel Parser.Equiv (valuesTurn lim db w ts x) (valuesTurn lim db w ts y) := by
  obtain ⟨b, p⟩ := x
  obtain ⟨_, q⟩ := y
  obtain ⟨rfl, h⟩ := h
  cases b
  · exact h.discard
  · exact writeTurn_equiv lim db h

theorem timestampTurn_rel {w : ℕ} {x y : Option Timestamp × Parser σ} (h : OutEquiv x y) :
    TurnRel Parser.Equiv (timestampTurn lim db w x) (timestampTurn lim db w y) := by
  obtain ⟨t, p⟩ := x
  obtain ⟨_, q⟩ := y
  obtain ⟨rfl, h⟩ := h
  cases t
  · exact h.discard
  · exact Turn.andThen_rel (parseValues_equiv lim h w)
      fun _ _ => valuesTurn_rel lim db

theorem idsTurn_rel {x y : Option ℕ × Parser σ} (h : OutEquiv x y) :
    TurnRel Parser.Equiv (idsTurn lim db parseTs x) (idsTurn lim db parseTs y) := by
  obtain ⟨w, p⟩ := x
  obtain ⟨_, q⟩ := y
  obtain ⟨rfl, h⟩ := h
  cases w
  · exact h.discard
  · exact Turn.andThen_rel
      (equiv_of_logAfter (parseTimestamp parseTs) (parseTimestamp_logAfter parseTs) h)
      fun _ _ => timestampTurn_rel lim db

theorem pairsTurn_rel {x y : Bool × Parser σ} (h : OutEquiv x y) :
    TurnRel OutEquiv (pairsTurn x) (pairsTurn y) := by
  obtain ⟨b, p⟩ := x
  obtain ⟨_, q⟩ := y
  obtain ⟨rfl, h⟩ := h
  cases b
  · exact ⟨rfl, h.discard⟩
  · exact h.consume

/-- Equivalent parsers take the same turn of the data loop. -/
theorem dataStep_equiv (h : p.Equiv q) :
    TurnRel Parser.Equiv (dataStep lim db parseTs p) (dataStep lim db parseTs q) := by
  rw [dataStep_eq, dataStep_eq]
  exact Turn.andThen_rel (equiv_of_logAfter (parseIds lim db) (parseIds_logAfter lim db) h)
    fun _ _ => idsTurn_rel lim db parseTs

omit parseTs in
/-- Equivalent parsers take the same turn of `parse_dict`. -/
theorem dictStep_equiv (h : p.Equiv q) :
    TurnRel OutEquiv (dictStep lim db p) (dictStep lim db q) := by
  unfold dictStep
  rw [h.rdbuf_eq]
  cases nextType q.rdbuf
  case again => exact ⟨rfl, h.discard⟩
  case array =>
    rcases readArraySize q.rdbuf with _ | _ | ⟨n, a⟩
    · rfl
    · exact ⟨rfl, h.discard⟩
    dsimp only
    split_ifs
    · rfl
    have hd := dictPairs_equiv lim db (h.withBuf a) (n / 2)
    revert hd
    rcases dictPairs lim db (p.withBuf a) (n / 2) with _ | ⟨b, p'⟩ <;>
      rcases dictPairs lim db (q.withBuf a) (n / 2) with _ | ⟨_, q'⟩ <;>
      intro hd <;> simp only [ExceptRel] at hd
    · exact hd
    · obtain ⟨rfl, hd⟩ := hd
      cases b
      · exact ⟨rfl, hd.discard⟩
      · exact hd.consume
  all_goals exact ⟨rfl, h.discard⟩

end Turns

/-! ### The loops -/

section Loops

variable {σ : Type} (lim : Limits) (db : DbSession σ) (parseTs : List UInt8 → Option Timestamp)

omit parseTs in
theorem parseDict_equiv {p q : Parser σ} (h : p.Equiv q) :
    ExceptRel OutEquiv (parseDict lim db p) (parseDict lim db q) := by
  induction p using parseDict.induct lim db generalizing q with
  | case1 p p' ht ih =>
    have hs := dictStep_equiv lim db h
    rw [ht] at hs
    rcases hq : dictStep lim db q with q' | r' <;> rw [hq] at hs
    · rw [parseDict_of_next ht, parseDict_of_next hq]; exact ih hs
    · exact hs.elim
  | case2 p r ht =>
    have hs := dictStep_equiv lim db h
    rw [ht] at hs
    rcases hq : dictStep lim db q with q' | r' <;> rw [hq] at hs
    · exact hs.elim
    · rw [parseDict_of_exit ht, parseDict_of_exit hq]; exact hs

theorem dataLoop_equiv {p q : Parser σ} (h : p.Equiv q) :
    ExceptRel Parser.Equiv (dataLoop lim db parseTs p) (dataLoop lim db parseTs q) := by
  induction p using dataLoop.induct lim db parseTs generalizing q with
  | case1 p p' ht ih =>
    have hs := dataStep_equiv lim db parseTs h
    rw [ht] at hs
    rcases hq : dataStep lim db parseTs q with q' | r' <;> rw [hq] at hs
    · rw [dataLoop_of_next ht, dataLoop_of_next hq]; exact ih hs
    · exact hs.elim
  | case2 p r ht =>
    have hs := dataStep_equiv lim db parseTs h
    rw [ht] at hs
    rcases hq : dataStep lim db parseTs q with q' | r' <;> rw [hq] at hs
    · exact hs.elim
    · rw [dataLoop_of_exit ht, dataLoop_of_exit hq]; exact hs

omit parseTs in
/-- `parse_dict` runs alike from parsers whose first turns are alike. -/
theorem parseDict_of_turnRel {p q : Parser σ}
    (h : TurnRel OutEquiv (dictStep lim db p) (dictStep lim db q)) :
    ExceptRel OutEquiv (parseDict lim db p) (parseDict lim db q) := by
  rcases hp : dictStep lim db p with p' | r <;> rcases hq : dictStep lim db q with q' | r' <;>
    rw [hp, hq] at h
  · rw [parseDict_of_next hp, parseDict_of_next hq]; exact parseDict_equiv lim db h
  · exact h.elim
  · exact h.elim
  · rw [parseDict_of_exit hp, parseDict_of_exit hq]; exact h

/-- The data loop runs alike from parsers whose first turns are alike. -/
theorem dataLoop_of_turnRel {p q : Parser σ}
    (h : TurnRel Parser.Equiv (dataStep lim db parseTs p) (dataStep lim db parseTs q)) :
    ExceptRel Parser.Equiv (dataLoop lim db parseTs p) (dataLoop lim db parseTs q) := by
  rcases hp : dataStep lim db parseTs p with p' | r <;>
    rcases hq : dataStep lim db parseTs q with q' | r' <;> rw [hp, hq] at h
  · rw [dataLoop_of_next hp, dataLoop_of_next hq]; exact dataLoop_equiv lim db parseTs h
  · exact h.elim
  · exact h.elim
  · rw [dataLoop_of_exit hp, dataLoop_of_exit hq]; exact h

/-- `worker()` runs alike from parsers whose dictionaries were read alike. -/
theorem worker_of_parseDict_rel {p q : Parser σ}
    (h : ExceptRel OutEquiv (parseDict lim db p) (parseDict lim db q)) :
    ExceptRel Parser.Equiv (worker lim db parseTs p) (worker lim db parseTs q) := by
  unfold worker
  revert h
  rcases parseDict lim db p with e | ⟨b, p'⟩ <;> rcases parseDict lim db q with e' | ⟨b', q'⟩ <;>
    intro h <;> simp only [ExceptRel] at h
  · exact h
  · obtain ⟨rfl, h⟩ := h
    cases b
    · exact h
    · exact dataLoop_equiv lim db parseTs h

/-- `worker()` runs alike from parsers that differ only in their logs' lookups. -/
theorem worker_equiv {p q : Parser σ} (h : p.Equiv q) :
    ExceptRel Parser.Equiv (worker lim db parseTs p) (worker lim db parseTs q) :=
  worker_of_parseDict_rel lim db parseTs (parseDict_equiv lim db h)

end Loops

end RESP

end Stdb
