import Stdb.RESPLog
import Stdb.RESPDict

/-!
# A unit cut by a chunk boundary is read again, and nothing changes

When a chunk ends inside a unit, `worker()` returns to the consumed offset (`discard()`), and the
next `parse_next` reads the unit again from its start.  The first, incomplete read has already
left effects in the parser: the ids it looked up, the values it read into `values_` and
`events_`, the dictionary pairs it registered, the lookups in the session's log.  This module
shows that none of them changes what the second read does, when the session's name lookups do
not change its state (`DbSession.LookupPure`):

* a unit read again writes every slot the first read wrote, with the same value
  (`parseElement_rerun`, `valuesLoop_retry`, `parseValues_retry`);
* a dictionary array read again finds its own pairs registered and `update_dict` leaves them
  alone (`dictPairs_retry`);
* so a turn retried after a chunk boundary is the turn on the longer stream, up to the lookups
  in the log (`dataStep_retry`, `dictStep_retry`).
-/

namespace Stdb

/-- A session whose name lookups leave its state alone. -/
def DbSession.LookupPure {σ : Type} (db : DbSession σ) : Prop :=
  ∀ c name n, (db.nameToParamIdList c name n).2 = c

theorem DbSession.naming_lookupPure (table : List (List UInt8 × List ParamId)) :
    (DbSession.naming table).LookupPure :=
  fun _ _ _ => rfl

namespace RESP

open LogicalStream

/-! ### What the value parsers leave alone -/

namespace Parser

variable {σ : Type} {S T : ℕ → Prop} {p q r : Parser σ}

/-- From `p` to `q` only the stream moved and slots of `values_` and `events_` in `S` were
written. -/
def EditsSlots (S : ℕ → Prop) (p q : Parser σ) : Prop :=
  q = { p with rdbuf := q.rdbuf, values := q.values, events := q.events } ∧
    ∀ j, ¬ S j → q.values j = p.values j ∧ q.events j = p.events j

theorem EditsSlots.refl (S : ℕ → Prop) (p : Parser σ) : p.EditsSlots S p :=
  ⟨rfl, fun _ _ => ⟨rfl, rfl⟩⟩

theorem EditsSlots.trans (h₁ : p.EditsSlots S q) (h₂ : q.EditsSlots T r) :
    p.EditsSlots (fun j => S j ∨ T j) r := by
  refine ⟨?_, fun j hj => ?_⟩
  · rw [h₂.1, h₁.1]
  · rw [(h₂.2 j (fun ht => hj (.inr ht))).1, (h₂.2 j (fun ht => hj (.inr ht))).2]
    exact h₁.2 j (fun hs => hj (.inl hs))

theorem EditsSlots.mono (h : p.EditsSlots S q) (hST : ∀ j, S j → T j) : p.EditsSlots T q :=
  ⟨h.1, fun j hj => h.2 j (fun hs => hj (hST j hs))⟩

theorem EditsSlots.paramids (h : p.EditsSlots S q) : q.paramids = p.paramids :=
  (congrArg Parser.paramids h.1 :)

theorem EditsSlots.idmap (h : p.EditsSlots S q) : q.idmap = p.idmap :=
  (congrArg Parser.idmap h.1 :)

theorem EditsSlots.session (h : p.EditsSlots S q) : q.session = p.session :=
  (congrArg Parser.session h.1 :)

theorem EditsSlots.calls (h : p.EditsSlots S q) : q.calls = p.calls :=
  (congrArg Parser.calls h.1 :)

end Parser

section Slots

variable {σ : Type} (lim : Limits) {p q x p₁ : Parser σ} {i : ℕ} {b : Bool}

theorem parseIntValue_slots (h : parseIntValue p i = .ok (b, q)) : p.EditsSlots (· = i) q := by
  unfold parseIntValue at h
  split at h
  · cases h
  · cases h; exact .refl _ _
  · cases h; exact ⟨rfl, fun j hj => ⟨Function.update_noteq hj _ _, rfl⟩⟩

theorem parseStringValue_slots (h : parseStringValue p i = .ok (b, q)) :
    p.EditsSlots (· = i) q := by
  unfold parseStringValue at h
  split at h
  · cases h
  · cases h; exact .refl _ _
  · dsimp only at h
    split_ifs at h
    cases h; exact ⟨rfl, fun j hj => ⟨Function.update_noteq hj _ _, rfl⟩⟩

theorem parseEventValue_slots (h : parseEventValue lim p i = .ok (b, q)) :
    p.EditsSlots (· = i) q := by
  unfold parseEventValue at h
  split at h
  · cases h
  · cases h; exact .refl _ _
  · split_ifs at h
    cases h; exact ⟨rfl, fun j hj => ⟨rfl, Function.update_noteq hj _ _⟩⟩

/-- An element read without an exception: not there yet, or read by one of the three value
parsers. -/
theorem parseElement_ok (h : parseElement lim p i = .ok (b, q)) :
    (b = false ∧ q = p) ∨ parseIntValue p i = .ok (b, q) ∨ parseStringValue p i = .ok (b, q) ∨
      parseEventValue lim p i = .ok (b, q) := by
  unfold parseElement at h
  split_ifs at h <;> cases hk : nextType p.rdbuf <;> simp only [hk] at h
  case pos.again | neg.again => cases h; exact .inl ⟨rfl, rfl⟩
  case pos.integer => exact .inr (.inl h)
  case pos.string => exact .inr (.inr (.inl h))
  case neg.string => exact .inr (.inr (.inr h))
  all_goals cases h

/-- Element `i` writes slot `i` and nothing else. -/
theorem parseElement_slots (h : parseElement lim p i = .ok (b, q)) : p.EditsSlots (· = i) q := by
  rcases parseElement_ok lim h with ⟨-, rfl⟩ | h | h | h
  · exact .refl _ _
  · exact parseIntValue_slots h
  · exact parseStringValue_slots h
  · exact parseEventValue_slots lim h

/-- The loop from element `i` writes the slots from `i` on. -/
theorem valuesLoop_slots {k : ℕ} (h : valuesLoop lim p i k = .ok (b, q)) :
    p.EditsSlots (i ≤ ·) q := by
  induction k generalizing p i with
  | zero => cases h; exact .refl _ _
  | succ k ih =>
    unfold valuesLoop at h
    split at h
    · rename_i p₁ he
      exact ((parseElement_slots lim he).trans (ih h)).mono fun j hj => by omega
    · exact (parseElement_slots lim h).mono fun j hj => by omega

/-! ### Reads not yet complete change nothing -/

theorem parseIntValue_false (h : parseIntValue p i = .ok (false, q)) : q = p := by
  unfold parseIntValue at h
  split at h
  · cases h
  · cases h; rfl
  · cases h

theorem parseStringValue_false (h : parseStringValue p i = .ok (false, q)) : q = p := by
  unfold parseStringValue at h
  split at h
  · cases h
  · cases h; rfl
  · dsimp only at h; split_ifs at h; cases h

theorem parseEventValue_false (h : parseEventValue lim p i = .ok (false, q)) : q = p := by
  unfold parseEventValue at h
  split at h
  · cases h
  · cases h; rfl
  · split_ifs at h; cases h

theorem parseElement_false (h : parseElement lim p i = .ok (false, q)) : q = p := by
  rcases parseElement_ok lim h with ⟨-, rfl⟩ | h | h | h
  · rfl
  · exact parseIntValue_false h
  · exact parseStringValue_false h
  · exact parseEventValue_false lim h

/-- `parse_values` writes slots and moves the stream, and nothing else. -/
theorem parseValues_slots {w : ℕ} (h : parseValues lim p w = .ok (b, q)) :
    p.EditsSlots (fun _ => True) q := by
  unfold parseValues at h
  split at h
  · cases h; exact .refl _ _
  · split_ifs at h; exact (parseIntValue_slots h).mono fun _ _ => trivial
  · split_ifs at h
    · exact (parseStringValue_slots h).mono fun _ _ => trivial
    · exact (parseEventValue_slots lim h).mono fun _ _ => trivial
  · split at h
    · cases h
    · cases h; exact .refl _ _
    · split_ifs at h
      exact ⟨(valuesLoop_slots lim h).1, fun _ hj => absurd trivial hj⟩
  · cases h

/-- `parse_values` returns `false` before the array, or from inside its loop. -/
theorem parseValues_false {w : ℕ} (h : parseValues lim p w = .ok (false, q)) :
    q = p ∨ ∃ n a, nextType p.rdbuf = .array ∧ readArraySize p.rdbuf = .ok (some (n, a)) ∧
      toInt n = w ∧ valuesLoop lim (p.withBuf a) 0 w = .ok (false, q) := by
  unfold parseValues at h
  cases hk : nextType p.rdbuf <;> simp only [hk] at h
  case again => cases h; exact .inl rfl
  case integer => split_ifs at h; exact .inl (parseIntValue_false h)
  case string =>
    split_ifs at h
    · exact .inl (parseStringValue_false h)
    · exact .inl (parseEventValue_false lim h)
  case array =>
    rcases hr : readArraySize p.rdbuf with e | _ | ⟨n, a⟩ <;> simp only [hr] at h
    · cases h
    · cases h; exact .inl rfl
    · split_ifs at h with hn
      exact .inr ⟨n, a, rfl, rfl, not_not.mp hn, h⟩
  all_goals cases h

end Slots

/-! ### Reading a unit's values again -/

section Rerun

variable {σ : Type} (lim : Limits) {p p₁ q x : Parser σ} {i : ℕ} (v : List UInt8)

/-- An integer read again into the slot that already holds it moves the stream and nothing
else. -/
theorem parseIntValue_rerun (h : parseIntValue p i = .ok (true, p₁)) (hx : x.rdbuf = p.rdbuf)
    (hval : x.values i = p₁.values i) : parseIntValue x i = .ok (true, x.withBuf p₁.rdbuf) := by
  unfold parseIntValue at h ⊢
  rw [hx]
  rcases hr : readInt p.rdbuf with e | _ | ⟨n, a⟩ <;> rw [hr] at h <;> cases h
  simp only [Function.update_same] at hval
  simp only [← hval, Function.update_eq_self]; rfl

theorem parseStringValue_rerun (h : parseStringValue p i = .ok (true, p₁)) (hx : x.rdbuf = p.rdbuf)
    (hval : x.values i = p₁.values i) : parseStringValue x i = .ok (true, x.withBuf p₁.rdbuf) := by
  unfold parseStringValue at h ⊢
  rw [hx]
  rcases hr : readString 64 p.rdbuf with e | _ | ⟨text, a⟩ <;> rw [hr] at h
  case ok.some =>
    dsimp only at h ⊢
    split_ifs at h ⊢
    cases h
    simp only [Function.update_same] at hval
    simp only [← hval, Function.update_eq_self]; rfl
  all_goals cases h

theorem parseEventValue_rerun (h : parseEventValue lim p i = .ok (true, p₁)) (hx : x.rdbuf = p.rdbuf)
    (hev : x.events i = p₁.events i) : parseEventValue lim x i = .ok (true, x.withBuf p₁.rdbuf) := by
  unfold parseEventValue at h ⊢
  rw [hx]
  rcases hr : readString lim.stringLengthMax p.rdbuf with e | _ | ⟨body, a⟩ <;> rw [hr] at h
  case ok.some =>
    dsimp only at h ⊢
    split_ifs at h ⊢
    cases h
    simp only [Function.update_same] at hev
    simp only [← hev, Function.update_eq_self]; rfl
  all_goals cases h

/-- Element `i` read again, on a parser whose slot `i` already holds what the first read wrote:
the stream moves past it and nothing else changes. -/
theorem parseElement_rerun (h : parseElement lim p i = .ok (true, p₁)) (x : Parser σ)
    (hx : x.rdbuf = p.rdbuf)
    (hid : x.paramids i = p.paramids i) (hval : x.values i = p₁.values i)
    (hev : x.events i = p₁.events i) : parseElement lim x i = .ok (true, x.withBuf p₁.rdbuf) := by
  unfold parseElement at h ⊢
  rw [hx, hid]
  split_ifs at h ⊢ <;> cases hk : nextType p.rdbuf <;> simp only [hk] at h ⊢
  case pos.integer => exact parseIntValue_rerun h hx hval
  case pos.string => exact parseStringValue_rerun h hx hval
  case neg.string => exact parseEventValue_rerun lim h hx hev
  all_goals cases h

/-- The loop over a value array, read again after it stopped at an incomplete element, is the
loop on the longer stream: every slot the first read wrote is written again with the same value
before anything reads it. -/
theorem valuesLoop_retry {k : ℕ} (hv : p.rdbuf.Valid) (h : valuesLoop lim p i k = .ok (false, q)) :
    valuesLoop lim (({ q with rdbuf := p.rdbuf } : Parser σ).push v) i k =
      valuesLoop lim (p.push v) i k := by
  induction k generalizing p i with
  | zero => cases h
  | succ k ih =>
    unfold valuesLoop at h ⊢
    rcases he : parseElement lim p i with e | ⟨_ | _, p₁⟩ <;> rw [he] at h
    · cases h
    · cases h; obtain rfl := parseElement_false lim he; rfl
    have hs := (parseElement_push lim v hv (by rw [he]; rfl)).ok he
    have h₁ := parseElement_slots lim he
    have h₂ := valuesLoop_slots lim h
    have hq : ∀ j, j < i + 1 → q.values j = p₁.values j ∧ q.events j = p₁.events j :=
      fun j hj => h₂.2 j (by omega)
    rw [hs, parseElement_rerun lim hs (({ q with rdbuf := p.rdbuf } : Parser σ).push v) rfl
      (by simp [h₂.paramids, h₁.paramids]) (hq i (by omega)).1 (hq i (by omega)).2]
    exact ih (hv.behind (parseElement_behind lim he)) h

/-- `parse_values` read again after it stopped is `parse_values` on the longer stream. -/
theorem parseValues_retry {w : ℕ} (hv : p.rdbuf.Valid) (h : parseValues lim p w = .ok (false, q)) :
    parseValues lim (({ q with rdbuf := p.rdbuf } : Parser σ).push v) w =
      parseValues lim (p.push v) w := by
  rcases parseValues_false lim h with rfl | ⟨n, a, hk, hr, hn, hl⟩
  · rfl
  have hr' := readElement_push_some hv v hr
  unfold parseValues
  simp only [Parser.push_rdbuf, nextType_push hv v (by rw [hk]; simp), hk, readArraySize]
  rw [hr']
  simp only [hn, ne_eq, not_true_eq_false, if_false]
  have hl' := valuesLoop_retry lim v (p := p.withBuf a) (hv.behind (readElement_some hr).behind) hl
  exact hl'

end Rerun

/-! ### The ids and the timestamp read again -/

section Ids

variable {σ : Type} (lim : Limits) (db : DbSession σ) (parseTs : List UInt8 → Option Timestamp)
  {p p₁ q : Parser σ} {w : ℕ}

theorem writeRow_writeRow (f : ℕ → ParamId) (ids : List ParamId) :
    writeRow (writeRow f ids) ids = writeRow f ids := by
  funext i
  simp only [writeRow, List.getD_eq_getElem?_getD]
  cases ids[i]? <;> rfl

theorem parseIds_idmap {t : Option ℕ} (h : parseIds lim db p = .ok (t, q)) : q.idmap = p.idmap := by
  unfold parseIds at h
  split at h
  · cases h; rfl
  · split at h
    · cases h
    · cases h; rfl
    · dsimp only at h; split_ifs at h; cases h; rfl
  · split at h
    · cases h
    · cases h; rfl
    · dsimp only at h; split_ifs at h; cases h; rfl
  · cases h

theorem parseIds_session (hpure : db.LookupPure) {t : Option ℕ} (h : parseIds lim db p = .ok (t, q)) :
    q.session = p.session := by
  unfold parseIds at h
  split at h
  · cases h; rfl
  · split at h
    · cases h
    · cases h; rfl
    · dsimp only at h; split_ifs at h; cases h; exact hpure _ _ _
  · split at h
    · cases h
    · cases h; rfl
    · dsimp only at h; split_ifs at h; cases h; rfl
  · cases h

/-- `parse_ids` read again, on a parser that holds the ids it wrote, the session and the
dictionary it read: the stream moves past them, and a name is looked up once more. -/
theorem parseIds_rerun (hpure : db.LookupPure) (h : parseIds lim db p = .ok (some w, p₁))
    (x : Parser σ) (hx : x.rdbuf = p.rdbuf) (hid : x.paramids = p₁.paramids)
    (hs : x.session = p.session) (hm : x.idmap = p.idmap) :
    ∃ cs, writes cs = [] ∧
      parseIds lim db x = .ok (some w, { x with rdbuf := p₁.rdbuf, calls := x.calls ++ cs }) := by
  unfold parseIds at h ⊢
  rw [hx, hs, hm]
  cases hk : nextType p.rdbuf <;> simp only [hk] at h ⊢
  case string =>
    rcases hr : readString lim.stringLengthMax p.rdbuf with e | _ | ⟨name, a⟩ <;>
      simp only [hr] at h ⊢
    · cases h
    · cases h
    · split_ifs at h ⊢
      cases h
      refine ⟨[.nameToParamIdList name], rfl, ?_⟩
      simp only [hid, writeRow_writeRow]
      rw [hpure]
  case integer =>
    rcases hr : readInt p.rdbuf with e | _ | ⟨uid, a⟩ <;> simp only [hr] at h ⊢
    · cases h
    · cases h
    · split_ifs at h ⊢
      cases h
      refine ⟨[], rfl, ?_⟩
      simp only [hid, writeRow_writeRow, List.append_nil]
  all_goals cases h

/-- `parse_timestamp` reads the stream and nothing else. -/
theorem parseTimestamp_stream (x : Parser σ) (hx : x.rdbuf = p.rdbuf) :
    parseTimestamp parseTs x = (parseTimestamp parseTs p).map fun r => (r.1, x.withBuf r.2.rdbuf) := by
  have hx' : x.withBuf p.rdbuf = x := by rw [← hx]; rfl
  unfold parseTimestamp
  rw [hx]
  cases nextType p.rdbuf <;> try (simp only [Except.map, hx']; done)
  · rcases readString 28 p.rdbuf with _ | _ | ⟨text, a⟩ <;> simp only [Except.map, hx']
    split <;> [rfl; cases parseTs text <;> rfl]
  · rcases readInt p.rdbuf with _ | _ | _ <;> simp only [Except.map, hx']
    rfl

theorem parseTimestamp_shape {t : Option Timestamp} (h : parseTimestamp parseTs p = .ok (t, q)) :
    q = p.withBuf q.rdbuf := by
  have h' := parseTimestamp_stream parseTs p rfl
  rw [h] at h'
  simp only [Except.map, Except.ok.injEq, Prod.mk.injEq] at h'
  exact h'.2

theorem parseTimestamp_none (h : parseTimestamp parseTs p = .ok (none, q)) : q = p := by
  unfold parseTimestamp at h
  split at h
  · cases h; rfl
  · split at h <;> cases h; rfl
  · split at h
    · cases h
    · cases h; rfl
    · split at h
      · cases h
      · split at h <;> cases h
  · cases h

end Ids

/-! ### A turn of the data loop read again -/

section UnitRest

variable {σ : Type} (lim : Limits) (db : DbSession σ) (parseTs : List UInt8 → Option Timestamp)
  (v : List UInt8) {p₁ p₂ p₃ : Parser σ} {w : ℕ} {ts : Timestamp}

/-- The rest of a unit read again after its ids, when the first read stopped inside the values:
the timestamp is read as before, and the values are the values on the longer stream. -/
theorem idsTurn_retry (hv₁ : p₁.rdbuf.Valid) (h₂ : parseTimestamp parseTs p₁ = .ok (some ts, p₂))
    (h₃ : parseValues lim p₂ w = .ok (false, p₃)) {cs : List DbCall} (hcs : writes cs = []) :
    TurnRel Parser.Equiv
      (idsTurn lim db parseTs
        (some w, ({ p₃ with rdbuf := p₁.rdbuf, calls := p₃.calls ++ cs } : Parser σ).push v))
      (idsTurn lim db parseTs (some w, p₁.push v)) := by
  set y := ({ p₃ with rdbuf := p₁.rdbuf, calls := p₃.calls ++ cs } : Parser σ).push v
  have hp₂ := (parseTimestamp_push parseTs v hv₁ (by rw [h₂]; rfl)).ok h₂
  have hy : parseTimestamp parseTs y = .ok (some ts, y.withBuf (p₂.rdbuf.push v)) := by
    rw [parseTimestamp_stream parseTs y (p := p₁.push v) rfl, hp₂]; rfl
  show TurnRel _ (Turn.andThen (parseTimestamp parseTs y) (timestampTurn lim db w))
    (Turn.andThen (parseTimestamp parseTs (p₁.push v)) (timestampTurn lim db w))
  rw [hy, hp₂]
  show TurnRel _ (Turn.andThen (parseValues lim (y.withBuf (p₂.rdbuf.push v)) w) (valuesTurn lim db w ts))
    (Turn.andThen (parseValues lim (p₂.push v) w) (valuesTurn lim db w ts))
  -- the values: the first read's slots are read again, and the lookups do not matter
  have he : (y.withBuf (p₂.rdbuf.push v)).Equiv (({ p₃ with rdbuf := p₂.rdbuf } : Parser σ).push v) :=
    ⟨rfl, by simp [y, hcs]⟩
  rw [← parseValues_retry lim v (hv₁.behind (parseTimestamp_behind parseTs h₂)) h₃]
  exact Turn.andThen_rel (parseValues_equiv lim he w) fun _ _ => valuesTurn_rel lim db

end UnitRest

section DataStep

variable {σ : Type} (lim : Limits) (db : DbSession σ) (parseTs : List UInt8 → Option Timestamp)
  {p u : Parser σ} (v : List UInt8)

omit lim db parseTs in
/-- A parser that read from a boundary goes back to it on `discard()`. -/
theorem Parser.discard_of_behind {p₁ : Parser σ} (h : p₁.rdbuf.Behind p.rdbuf)
    (hb : p.rdbuf.Boundary) : p₁.discard = p₁.withBuf p.rdbuf := by
  simp only [Parser.discard, Parser.withBuf, h.discard_eq hb]

/-- How a turn of the data loop can stop without an exception: before the ids, before the
timestamp, or inside the values. -/
theorem dataStep_exit_ok (h : dataStep lim db parseTs p = .exit (.ok u)) :
    (parseIds lim db p = .ok (none, p) ∧ u = p.discard) ∨
    ∃ w p₁, parseIds lim db p = .ok (some w, p₁) ∧
      ((parseTimestamp parseTs p₁ = .ok (none, p₁) ∧ u = p₁.discard) ∨
        ∃ ts p₂ p₃, parseTimestamp parseTs p₁ = .ok (some ts, p₂) ∧
          parseValues lim p₂ w = .ok (false, p₃) ∧ u = p₃.discard) := by
  rw [dataStep_eq] at h
  rcases h₁ : parseIds lim db p with e | ⟨_ | w, p₁⟩ <;> rw [h₁] at h
  · cases h
  · cases h; obtain rfl := parseIds_none lim db h₁; exact .inl ⟨rfl, rfl⟩
  refine .inr ⟨w, p₁, rfl, ?_⟩
  simp only [Turn.andThen, idsTurn] at h
  rcases h₂ : parseTimestamp parseTs p₁ with e | ⟨_ | ts, p₂⟩ <;> rw [h₂] at h
  · cases h
  · cases h; obtain rfl := parseTimestamp_none parseTs h₂; exact .inl ⟨rfl, rfl⟩
  simp only [Turn.andThen, timestampTurn] at h
  rcases h₃ : parseValues lim p₂ w with e | ⟨_ | _, p₃⟩ <;> rw [h₃] at h
  · cases h
  · cases h; exact .inr ⟨ts, p₂, p₃, rfl, h₃, rfl⟩
  simp only [Turn.andThen, valuesTurn, writeTurn] at h
  split at h <;> cases h

theorem TurnRel.refl {α : Type} {R : α → α → Prop} (hR : ∀ x, R x x) :
    ∀ t : Turn σ α, TurnRel R t t
  | .next p => .refl p
  | .exit r => ExceptRel.refl hR r

/-- A turn of the data loop that stopped at a chunk boundary, read again once the next chunk
arrived, is the turn on the longer stream, up to the name lookups in the log. -/
theorem dataStep_retry (hpure : db.LookupPure) (hb : p.rdbuf.Boundary)
    (h : dataStep lim db parseTs p = .exit (.ok u)) :
    TurnRel Parser.Equiv (dataStep lim db parseTs (u.push v)) (dataStep lim db parseTs (p.push v)) := by
  have hv := hb.valid
  rcases dataStep_exit_ok lim db parseTs h with ⟨-, rfl⟩ | ⟨w, p₁, h₁, ⟨h₂, rfl⟩ | ⟨ts, p₂, p₃, h₂, h₃, rfl⟩⟩
  · have hp : p.discard = p := by simp only [Parser.discard, hb.discard_eq]
    rw [hp]; exact TurnRel.refl Parser.Equiv.refl _
  all_goals
    have hb₁ : p₁.rdbuf.Behind p.rdbuf := (parseIds_past lim db h₁).behind
    have hp₁ := (parseIds_push lim db v hv (by rw [h₁]; rfl)).ok h₁
    rw [dataStep_eq, dataStep_eq, hp₁]
  · -- stopped before the timestamp: the ids read again are the ids on the longer stream
    obtain ⟨cs, hcs, hre⟩ := parseIds_rerun lim db hpure hp₁ (p₁.discard.push v)
      (by simp [hb₁.discard_eq hb]) rfl (parseIds_session lim db hpure h₁ :) (parseIds_idmap lim db h₁ :)
    rw [hre]
    dsimp only [Turn.andThen]
    exact idsTurn_rel lim db parseTs ⟨rfl, rfl, by simp [hcs]⟩
  · -- stopped inside the values: ids and timestamp read again, then the values retried
    have hs₂ := parseTimestamp_shape parseTs h₂
    have hs₃ := parseValues_slots lim h₃
    have hb₂ : p₂.rdbuf.Behind p₁.rdbuf := parseTimestamp_behind parseTs h₂
    have hb₃ : p₃.rdbuf.Behind p.rdbuf := (parseValues_behind lim h₃).trans (hb₂.trans hb₁)
    obtain ⟨cs, hcs, hre⟩ := parseIds_rerun lim db hpure hp₁ (p₃.discard.push v)
      (by simp [hb₃.discard_eq hb]) (by rw [Parser.push_paramids, Parser.push_paramids,
        Parser.discard, hs₃.paramids, hs₂]; rfl)
      (by rw [Parser.push_session, Parser.discard, hs₃.session, hs₂]
          exact (parseIds_session lim db hpure h₁ :))
      (by rw [Parser.push_idmap, Parser.discard, hs₃.idmap, hs₂]; exact (parseIds_idmap lim db h₁ :))
    rw [hre]
    dsimp only [Turn.andThen]
    exact idsTurn_retry lim db parseTs v (hv.behind hb₁) h₂ h₃ hcs

omit parseTs in
/-- `parse_dict`'s turn stops without an exception and without a whole dictionary array only at
the end of the data, or inside an array's pairs. -/
theorem dictStep_exit_false (h : dictStep lim db p = .exit (.ok (false, u))) :
    u = p.discard ∨ ∃ n a p₁, nextType p.rdbuf = .array ∧ readArraySize p.rdbuf = .ok (some (n, a)) ∧
      n % 2 = 0 ∧ dictPairs lim db (p.withBuf a) (n / 2) = .ok (false, p₁) ∧ u = p₁.discard := by
  unfold dictStep at h
  cases hk : nextType p.rdbuf <;> simp only [hk] at h
  case again => cases h; exact .inl rfl
  case array =>
    rcases hr : readArraySize p.rdbuf with e | _ | ⟨n, a⟩ <;> simp only [hr] at h
    · cases h
    · cases h; exact .inl rfl
    · split_ifs at h with he
      · cases h
      rcases hd : dictPairs lim db (p.withBuf a) (n / 2) with e | ⟨_ | _, p₁⟩ <;> rw [hd] at h
      · cases h
      · cases h; exact .inr ⟨n, a, p₁, rfl, rfl, not_not.mp he, hd, rfl⟩
      · cases h
  all_goals cases h

end DataStep

/-! ### A dictionary array read again -/

namespace Parser

variable {σ : Type} {p q r : Parser σ}

/-- From `p` to `q` only the stream moved, pairs were added to the dictionary and names were looked
up. -/
def AddsPairs (p q : Parser σ) : Prop :=
  q = { p with rdbuf := q.rdbuf, idmap := q.idmap, calls := q.calls } ∧
    (∃ cs, q.calls = p.calls ++ cs ∧ writes cs = []) ∧
    ∀ uid, (p.idmap.any fun e => e.1 = uid) = true → (q.idmap.any fun e => e.1 = uid) = true

theorem AddsPairs.refl (p : Parser σ) : p.AddsPairs p :=
  ⟨rfl, ⟨[], by simp, rfl⟩, fun _ h => h⟩

theorem AddsPairs.trans (h₁ : p.AddsPairs q) (h₂ : q.AddsPairs r) : p.AddsPairs r := by
  obtain ⟨cs, hc, hw⟩ := h₁.2.1
  obtain ⟨ds, hd, hw'⟩ := h₂.2.1
  exact ⟨by rw [h₂.1, h₁.1], ⟨cs ++ ds, by rw [hd, hc, List.append_assoc], by simp [hw, hw']⟩,
    fun uid h => h₂.2.2 uid (h₁.2.2 uid h)⟩

/-- Pairs stopped before any was added: going back to the start is `p` up to the lookups. -/
theorem AddsPairs.equiv_of_idmap (h : p.AddsPairs q) (hm : q.idmap = p.idmap) :
    ({ q with rdbuf := p.rdbuf } : Parser σ).Equiv p := by
  obtain ⟨cs, hc, hw⟩ := h.2.1
  refine ⟨?_, by simp [hc, hw]⟩
  rw [h.1, hm]

end Parser

section Dict

variable {σ : Type} (lim : Limits) (db : DbSession σ) (v : List UInt8) {p q u : Parser σ}

/-- One name–id pair read whole: the name is looked up, and the row registered under the id. -/
theorem dictPairs_pair (x : Parser σ) {k : ℕ} {name : List UInt8} {a a' : LogicalStream} {uid : ℕ}
    (hk : nextType x.rdbuf = .string)
    (hr : readString lim.stringLengthMax x.rdbuf = .ok (some (name, a)))
    (hrow : (db.nameToParamIdList x.session name lim.maxRowWidth).1 ≠ [])
    (hk' : nextType a = .integer) (hu : readInt a = .ok (some (uid, a'))) :
    dictPairs lim db x (k + 1) = dictPairs lim db
      { x with
        rdbuf := a', session := (db.nameToParamIdList x.session name lim.maxRowWidth).2,
        calls := x.calls ++ [.nameToParamIdList name],
        idmap := (updateDict x.idmap uid (db.nameToParamIdList x.session name lim.maxRowWidth).1).2 } k := by
  simp only [dictPairs, hk, hr, hrow, hk', hu, if_false]

/-- A name looked up changes, besides the stream, only the log. -/
theorem addsPairs_lookup (hpure : db.LookupPure) (p : Parser σ) (name : List UInt8) (a : LogicalStream) :
    p.AddsPairs { p with
      rdbuf := a, session := (db.nameToParamIdList p.session name lim.maxRowWidth).2,
      calls := p.calls ++ [.nameToParamIdList name] } :=
  ⟨by rw [hpure], ⟨_, rfl, rfl⟩, fun _ h => h⟩

omit lim db in
/-- A pair registered changes, besides the stream, only the dictionary, and keeps its keys. -/
theorem addsPairs_register (p : Parser σ) (a : LogicalStream) (uid : ParamId) (row : List ParamId) :
    p.AddsPairs { p with rdbuf := a, idmap := (updateDict p.idmap uid row).2 } :=
  ⟨rfl, ⟨[], by simp, rfl⟩, fun _ h => any_updateDict_of_any uid row h⟩

theorem dictPairs_addsPairs (hpure : db.LookupPure) {k : ℕ} {b : Bool}
    (h : dictPairs lim db p k = .ok (b, q)) : p.AddsPairs q := by
  induction k generalizing p with
  | zero => cases h; exact .refl _
  | succ k ih =>
    unfold dictPairs at h
    split at h
    · cases h; exact .refl _
    · split at h
      · cases h
      · cases h; exact .refl _
      · rename_i name a _
        dsimp only at h
        split_ifs at h
        split at h
        · cases h; exact addsPairs_lookup lim db hpure p name a
        · split at h
          · cases h
          · cases h; exact addsPairs_lookup lim db hpure p name a
          · rename_i uid a' _
            exact (addsPairs_lookup lim db hpure p name a).trans
              ((addsPairs_register _ a' uid _).trans (ih h))
        · cases h
    · cases h

/-- The loop over a dictionary array's pairs, read again after it stopped at an incomplete pair,
is the loop on the longer stream up to the lookups: the pairs the first read registered are
found registered, and `update_dict` leaves them alone. -/
theorem dictPairs_retry (hpure : db.LookupPure) {k : ℕ} (hv : p.rdbuf.Valid)
    (h : dictPairs lim db p k = .ok (false, q)) :
    ExceptRel OutEquiv (dictPairs lim db (({ q with rdbuf := p.rdbuf } : Parser σ).push v) k)
      (dictPairs lim db (p.push v) k) := by
  induction k generalizing p with
  | zero => cases h
  | succ k ih =>
    have hadd := dictPairs_addsPairs lim db hpure h
    -- stopped before a pair was registered: the retry starts from `p`, up to the lookups
    have hstop : q.idmap = p.idmap → ExceptRel OutEquiv
        (dictPairs lim db (({ q with rdbuf := p.rdbuf } : Parser σ).push v) (k + 1))
        (dictPairs lim db (p.push v) (k + 1)) :=
      fun hm => dictPairs_equiv lim db ((hadd.equiv_of_idmap hm).push v) (k + 1)
    unfold dictPairs at h
    cases hk : nextType p.rdbuf <;> simp only [hk] at h
    case string =>
      rcases hr : readString lim.stringLengthMax p.rdbuf with e | _ | ⟨name, a⟩ <;>
        simp only [hr] at h
      · cases h
      · cases h; exact hstop rfl
      split_ifs at h with hrow
      cases hk' : nextType a with
      | again => simp only [hk'] at h; cases h; exact hstop rfl
      | integer =>
        simp only [hk'] at h
        rcases hu : readInt a with e | _ | ⟨uid, a'⟩ <;> simp only [hu] at h
        · cases h
        · cases h; exact hstop rfl
        -- the pair was registered: read it again on both sides
        have ha : a.Valid := hv.behind (readElement_some hr).behind
        have ha' : a'.Valid := ha.behind (readElement_some hu).behind
        have hadd' := dictPairs_addsPairs lim db hpure h
        have hses : q.session = p.session := by
          rw [hadd'.1]; exact hpure _ _ _
        have hkey : (q.idmap.any fun e => e.1 = uid) = true :=
          hadd'.2.2 uid (any_updateDict_self _ _ hrow)
        have hk₁ : nextType (p.rdbuf.push v) = .string := by
          rw [nextType_push hv v (by rw [hk]; simp), hk]
        have hr₁ := readElement_push_some hv v hr
        have hk₁' : nextType (a.push v) = .integer := by
          rw [nextType_push ha v (by rw [hk']; simp), hk']
        have hu₁ := readElement_push_some ha v hu
        rw [dictPairs_pair lim db (p.push v) hk₁ hr₁ hrow hk₁' hu₁,
          dictPairs_pair lim db (({ q with rdbuf := p.rdbuf } : Parser σ).push v) hk₁ hr₁
            (by simpa [hses] using hrow) hk₁' hu₁]
        refine ExceptRel.trans (R := OutEquiv) (fun _ _ _ => OutEquiv.trans)
          (dictPairs_equiv lim db ⟨?_, by simp⟩ k) (ih ha' h)
        simp only [Parser.push_session, Parser.push_idmap, updateDict_of_mem _ hkey]
        rw [hpure]; rfl
      | _ => simp only [hk'] at h; cases h
    case again => cases h; exact hstop rfl
    all_goals cases h

/-- A turn of `parse_dict` that stopped inside a dictionary array at a chunk boundary, read
again once the next chunk arrived, is the turn on the longer stream, up to the lookups. -/
theorem dictStep_retry (hpure : db.LookupPure) (hb : p.rdbuf.Boundary)
    (h : dictStep lim db p = .exit (.ok (false, u))) :
    TurnRel OutEquiv (dictStep lim db (u.push v)) (dictStep lim db (p.push v)) := by
  have hv := hb.valid
  rcases dictStep_exit_false lim db h with rfl | ⟨n, a, p₁, hk, hr, he, hd, rfl⟩
  · have hp : p.discard = p := by simp only [Parser.discard, hb.discard_eq]
    rw [hp]; exact TurnRel.refl OutEquiv.refl _
  have hb₁ : p₁.rdbuf.Behind p.rdbuf :=
    (dictPairs_behind lim db hd).trans (readElement_some hr).behind
  have hk' : nextType (p.rdbuf.push v) = .array := by rw [nextType_push hv v (by rw [hk]; simp), hk]
  have hr' : readArraySize (p.rdbuf.push v) = .ok (some (n, a.push v)) := readElement_push_some hv v hr
  rw [Parser.discard_of_behind hb₁ hb, dictStep_of_array lim db (p := (p₁.withBuf p.rdbuf).push v) hk' hr' he,
    dictStep_of_array lim db (p := p.push v) hk' hr' he]
  exact Turn.andThen_rel (dictPairs_retry lim db v hpure (hv.behind (readElement_some hr).behind) hd)
    fun _ _ => pairsTurn_rel

end Dict

end RESP

end Stdb
