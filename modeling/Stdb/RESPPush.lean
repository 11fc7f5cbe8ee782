import Stdb.RESP

/-!
# More bytes never change a settled parse

`parse_next` pushes a chunk and runs `worker()` again from the consumed offset, so every parse
function of the RESP parser may run on a prefix of the stream first and on a longer one later.
A parse function either settles (a value, or an exception) or finds an element incomplete.  What
it settles on does not depend on the bytes that arrive later: with more bytes pushed it returns
the same value and the same state, the bytes pushed (`Settles`), or an exception again, whose
context shows the new bytes.

Each parse function gets one such lemma, from `nextType_push` and `readElement_push_some` /
`readElement_push_error` for the reads it makes; the turns of `parse_dict` and of the data loop,
and the loops themselves, follow from them.
-/

namespace Stdb

namespace RESP

open LogicalStream

namespace Parser

variable {σ : Type}

/-- The parser after `rdbuf_.push(buffer, sz)`. -/
def push (p : Parser σ) (v : List UInt8) : Parser σ := { p with rdbuf := p.rdbuf.push v }

@[simp] theorem push_rdbuf (p : Parser σ) (v : List UInt8) : (p.push v).rdbuf = p.rdbuf.push v :=
  rfl
@[simp] theorem push_idmap (p : Parser σ) (v : List UInt8) : (p.push v).idmap = p.idmap := rfl
@[simp] theorem push_paramids (p : Parser σ) (v : List UInt8) : (p.push v).paramids = p.paramids :=
  rfl
@[simp] theorem push_values (p : Parser σ) (v : List UInt8) : (p.push v).values = p.values := rfl
@[simp] theorem push_events (p : Parser σ) (v : List UInt8) : (p.push v).events = p.events := rfl
@[simp] theorem push_session (p : Parser σ) (v : List UInt8) : (p.push v).session = p.session :=
  rfl
@[simp] theorem push_calls (p : Parser σ) (v : List UInt8) : (p.push v).calls = p.calls := rfl
@[simp] theorem consume_push (p : Parser σ) (v : List UInt8) :
    (p.push v).consume = p.consume.push v := rfl
@[simp] theorem discard_push (p : Parser σ) (v : List UInt8) :
    (p.push v).discard = p.discard.push v := rfl
@[simp] theorem withBuf_push (p : Parser σ) (a : LogicalStream) (v : List UInt8) :
    (p.withBuf a).push v = (p.push v).withBuf (a.push v) := rfl

end Parser

section Settle

variable {σ α : Type}

/-- A result no later byte can change: an exception, or a value `done` accepts. -/
def Final (done : α → Prop) : Except Exception (α × Parser σ) → Prop
  | .ok (x, _) => done x
  | .error _ => True

/-- `r'` is the settled result `r` once the bytes `v` arrived: the same value and state with the
bytes pushed, or an exception again. -/
def Settles (v : List UInt8) : Except Exception (α × Parser σ) → Except Exception (α × Parser σ) → Prop
  | .ok (x, p), r' => r' = .ok (x, p.push v)
  | .error _, r' => ∃ e, r' = .error e

/-- A turn no later byte can change: one that goes on, an exception, or an exit `done` accepts. -/
def TurnFinal (done : α → Prop) : Turn σ α → Prop
  | .exit (.ok x) => done x
  | _ => True

/-- `t'` is the settled turn `t` once the bytes `v` arrived; `pushOut` pushes them into an exit
value. -/
def TurnSettles (v : List UInt8) (pushOut : α → α) : Turn σ α → Turn σ α → Prop
  | .next p, t' => t' = .next (p.push v)
  | .exit (.ok x), t' => t' = .exit (.ok (pushOut x))
  | .exit (.error _), t' => ∃ e, t' = .exit (.error e)

variable {v : List UInt8} {r r' : Except Exception (α × Parser σ)}

theorem Settles.ok {x : α} {q : Parser σ} (h : Settles v r r') (hr : r = .ok (x, q)) :
    r' = .ok (x, q.push v) := by
  subst hr; exact h

theorem Settles.error {e : Exception} (h : Settles v r r') (hr : r = .error e) :
    ∃ e', r' = .error e' := by
  subst hr; exact h

end Settle

section Push

variable {σ : Type} (lim : Limits) (db : DbSession σ) (parseTs : List UInt8 → Option Timestamp)
  {p : Parser σ} (v : List UInt8)

/-! ### The value parsers -/

omit db parseTs in
theorem parseIntValue_push {i : ℕ} (hv : p.rdbuf.Valid)
    (hf : Final (· = true) (parseIntValue p i)) :
    Settles v (parseIntValue p i) (parseIntValue (p.push v) i) := by
  unfold parseIntValue at hf ⊢
  simp only [readInt, Parser.push_rdbuf] at hf ⊢
  rcases hr : readElement 58 numeral p.rdbuf with e | _ | ⟨x, a⟩
  · rw [readElement_push_error hv v hr]; exact ⟨e, rfl⟩
  · rw [hr] at hf; exact absurd hf Bool.false_ne_true
  · rw [readElement_push_some hv v hr]; rfl

omit db parseTs in
theorem parseStringValue_push {i : ℕ} (hv : p.rdbuf.Valid)
    (hf : Final (· = true) (parseStringValue p i)) :
    Settles v (parseStringValue p i) (parseStringValue (p.push v) i) := by
  unfold parseStringValue at hf ⊢
  simp only [readString, Parser.push_rdbuf] at hf ⊢
  rcases hr : readElement 43 (fitting 64) p.rdbuf with e | _ | ⟨x, a⟩
  · rw [readElement_push_error hv v hr]; exact ⟨e, rfl⟩
  · rw [hr] at hf; exact absurd hf Bool.false_ne_true
  · rw [readElement_push_some hv v hr]
    dsimp only
    split_ifs
    · exact ⟨_, rfl⟩
    · exact ⟨_, rfl⟩
    · rfl

omit db parseTs in
theorem parseEventValue_push {i : ℕ} (hv : p.rdbuf.Valid)
    (hf : Final (· = true) (parseEventValue lim p i)) :
    Settles v (parseEventValue lim p i) (parseEventValue lim (p.push v) i) := by
  unfold parseEventValue at hf ⊢
  simp only [readString, Parser.push_rdbuf] at hf ⊢
  rcases hr : readElement 43 (fitting lim.stringLengthMax) p.rdbuf with e | _ | ⟨x, a⟩
  · rw [readElement_push_error hv v hr]; exact ⟨e, rfl⟩
  · rw [hr] at hf; exact absurd hf Bool.false_ne_true
  · rw [readElement_push_some hv v hr]
    dsimp only
    split_ifs
    · exact ⟨_, rfl⟩
    · rfl

omit db parseTs in
theorem parseElement_push {i : ℕ} (hv : p.rdbuf.Valid)
    (hf : Final (· = true) (parseElement lim p i)) :
    Settles v (parseElement lim p i) (parseElement lim (p.push v) i) := by
  unfold parseElement at hf ⊢
  simp only [Parser.push_rdbuf, Parser.push_paramids] at hf ⊢
  by_cases hnt : nextType p.rdbuf = .again
  · simp [hnt, Final] at hf
  · rw [nextType_push hv v hnt]
    split_ifs at hf ⊢ <;> cases hk : nextType p.rdbuf <;> simp only [hk] at hf ⊢
    case pos.integer => exact parseIntValue_push v hv hf
    case pos.string => exact parseStringValue_push v hv hf
    case neg.string => exact parseEventValue_push lim v hv hf
    case pos.again | neg.again => exact absurd hk hnt
    all_goals exact ⟨_, rfl⟩

omit db parseTs in
theorem valuesLoop_push {i k : ℕ} (hv : p.rdbuf.Valid)
    (hf : Final (· = true) (valuesLoop lim p i k)) :
    Settles v (valuesLoop lim p i k) (valuesLoop lim (p.push v) i k) := by
  induction k generalizing p i with
  | zero => rfl
  | succ k ih =>
    unfold valuesLoop at hf ⊢
    rcases he : parseElement lim p i with e | ⟨_ | _, q⟩
    · obtain ⟨e', he'⟩ := (parseElement_push lim v hv (by rw [he]; trivial)).error he
      rw [he']; exact ⟨e', rfl⟩
    · rw [he] at hf; exact absurd hf Bool.false_ne_true
    · rw [(parseElement_push lim v hv (by rw [he]; rfl)).ok he]
      rw [he] at hf
      exact ih (hv.behind (parseElement_behind lim he)) hf

omit db parseTs in
theorem parseValues_push {w : ℕ} (hv : p.rdbuf.Valid) (hf : Final (· = true) (parseValues lim p w)) :
    Settles v (parseValues lim p w) (parseValues lim (p.push v) w) := by
  unfold parseValues at hf ⊢
  simp only [Parser.push_rdbuf, Parser.push_paramids] at hf ⊢
  by_cases hnt : nextType p.rdbuf = .again
  · simp [hnt, Final] at hf
  · rw [nextType_push hv v hnt]
    by_cases ha : nextType p.rdbuf = .array
    · simp only [ha, readArraySize] at hf ⊢
      rcases hr : readElement 42 numeral p.rdbuf with e | _ | ⟨n, a⟩
      · rw [readElement_push_error hv v hr]; exact ⟨e, rfl⟩
      · rw [hr] at hf; exact absurd hf Bool.false_ne_true
      · rw [readElement_push_some hv v hr]
        rw [hr] at hf
        dsimp only at hf ⊢
        by_cases hn : toInt n ≠ w
        · simp only [if_pos hn]; exact ⟨_, rfl⟩
        · simp only [if_neg hn] at hf ⊢
          exact valuesLoop_push lim v (p := p.withBuf a) (hv.behind (readElement_some hr).behind) hf
    cases hk : nextType p.rdbuf with
    | again => exact absurd hk hnt
    | array => exact absurd hk ha
    | integer =>
      simp only [hk] at hf ⊢
      split_ifs at hf ⊢
      · exact parseIntValue_push v hv hf
      · exact ⟨_, rfl⟩
    | string =>
      simp only [hk] at hf ⊢
      split_ifs at hf ⊢
      · exact parseStringValue_push v hv hf
      · exact parseEventValue_push lim v hv hf
      · exact ⟨_, rfl⟩
    | bulkStr | error | bad => simp only [hk]; exact ⟨_, rfl⟩

/-! ### Ids, timestamp and writes -/

omit parseTs in
theorem parseIds_push (hv : p.rdbuf.Valid) (hf : Final (·.isSome) (parseIds lim db p)) :
    Settles v (parseIds lim db p) (parseIds lim db (p.push v)) := by
  unfold parseIds at hf ⊢
  simp only [Parser.push_rdbuf, Parser.push_session, Parser.push_calls, Parser.push_idmap,
    Parser.push_paramids, readString, readInt] at hf ⊢
  by_cases hnt : nextType p.rdbuf = .again
  · simp [hnt, Final] at hf
  rw [nextType_push hv v hnt]
  cases hk : nextType p.rdbuf with
  | string =>
    simp only [hk] at hf ⊢
    rcases hr : readElement 43 (fitting lim.stringLengthMax) p.rdbuf with e | _ | ⟨name, a⟩
    · rw [readElement_push_error hv v hr]; exact ⟨e, rfl⟩
    · rw [hr] at hf; simp [Final] at hf
    · rw [readElement_push_some hv v hr]
      dsimp only
      split_ifs
      · exact ⟨_, rfl⟩
      · rfl
  | integer =>
    simp only [hk] at hf ⊢
    rcases hr : readElement 58 numeral p.rdbuf with e | _ | ⟨uid, a⟩
    · rw [readElement_push_error hv v hr]; exact ⟨e, rfl⟩
    · rw [hr] at hf; simp [Final] at hf
    · rw [readElement_push_some hv v hr]
      dsimp only
      split_ifs
      · exact ⟨_, rfl⟩
      · rfl
  | again => exact absurd hk hnt
  | _ => exact ⟨_, rfl⟩

omit lim db in
theorem parseTimestamp_push (hv : p.rdbuf.Valid) (hf : Final (·.isSome) (parseTimestamp parseTs p)) :
    Settles v (parseTimestamp parseTs p) (parseTimestamp parseTs (p.push v)) := by
  unfold parseTimestamp at hf ⊢
  simp only [Parser.push_rdbuf, readString, readInt] at hf ⊢
  by_cases hnt : nextType p.rdbuf = .again
  · simp [hnt, Final] at hf
  rw [nextType_push hv v hnt]
  cases hk : nextType p.rdbuf with
  | integer =>
    simp only [hk] at hf ⊢
    rcases hr : readElement 58 numeral p.rdbuf with e | _ | ⟨ts, a⟩
    · rw [readElement_push_error hv v hr]; exact ⟨e, rfl⟩
    · rw [hr] at hf; simp [Final] at hf
    · rw [readElement_push_some hv v hr]; rfl
  | string =>
    simp only [hk] at hf ⊢
    rcases hr : readElement 43 (fitting 28) p.rdbuf with e | _ | ⟨text, a⟩
    · rw [readElement_push_error hv v hr]; exact ⟨e, rfl⟩
    · rw [hr] at hf; simp [Final] at hf
    · rw [readElement_push_some hv v hr]
      dsimp only
      split_ifs
      · exact ⟨_, rfl⟩
      · cases parseTs text
        · exact ⟨_, rfl⟩
        · rfl
  | again => exact absurd hk hnt
  | _ => exact ⟨_, rfl⟩

omit parseTs in
/-- The writes do not read the stream. -/
theorem writeColumns_push {ts : Timestamp} {i k : ℕ} :
    writeColumns lim db (p.push v) ts i k = (writeColumns lim db p ts i k).map (·.push v) := by
  induction k generalizing p i with
  | zero => rfl
  | succ k ih =>
    unfold writeColumns
    have hc : columnSample lim (p.push v) ts i = columnSample lim p ts i := rfl
    simp only [hc, Parser.push_session, Parser.push_calls]
    split_ifs
    · rfl
    · rw [← ih]; rfl

/-! ### The turns of the loops -/

omit parseTs in
theorem dictPairs_push {k : ℕ} (hv : p.rdbuf.Valid) (hf : Final (· = true) (dictPairs lim db p k)) :
    Settles v (dictPairs lim db p k) (dictPairs lim db (p.push v) k) := by
  induction k generalizing p with
  | zero => rfl
  | succ k ih =>
    unfold dictPairs at hf ⊢
    simp only [Parser.push_rdbuf, Parser.push_session, Parser.push_calls, readString, readInt]
      at hf ⊢
    by_cases hnt : nextType p.rdbuf = .again
    · simp [hnt, Final] at hf
    rw [nextType_push hv v hnt]
    cases hk : nextType p.rdbuf with
    | string =>
      simp only [hk] at hf ⊢
      rcases hr : readElement 43 (fitting lim.stringLengthMax) p.rdbuf with e | _ | ⟨name, a⟩
      · rw [readElement_push_error hv v hr]; exact ⟨e, rfl⟩
      · rw [hr] at hf; simp [Final] at hf
      · rw [readElement_push_some hv v hr]
        rw [hr] at hf
        dsimp only at hf ⊢
        have ha : a.Valid := hv.behind (readElement_some hr).behind
        split_ifs at hf ⊢
        · exact ⟨_, rfl⟩
        by_cases hnt' : nextType a = .again
        · simp [hnt', Final] at hf
        rw [nextType_push ha v hnt']
        cases hk' : nextType a with
        | integer =>
          simp only [hk'] at hf ⊢
          rcases hu : readElement 58 numeral a with e | _ | ⟨uid, a'⟩
          · rw [readElement_push_error ha v hu]; exact ⟨e, rfl⟩
          · rw [hu] at hf; simp [Final] at hf
          · rw [readElement_push_some ha v hu]
            rw [hu] at hf
            exact ih (ha.behind (readElement_some hu).behind) hf
        | again => exact absurd hk' hnt'
        | _ => exact ⟨_, rfl⟩
    | again => exact absurd hk hnt
    | _ => exact ⟨_, rfl⟩

omit parseTs in
theorem dictStep_push (hv : p.rdbuf.Valid) (hf : TurnFinal (·.1 = true) (dictStep lim db p)) :
    TurnSettles v (fun x => (x.1, x.2.push v)) (dictStep lim db p) (dictStep lim db (p.push v)) := by
  unfold dictStep at hf ⊢
  simp only [Parser.push_rdbuf, readArraySize] at hf ⊢
  by_cases hnt : nextType p.rdbuf = .again
  · simp [hnt, TurnFinal] at hf
  rw [nextType_push hv v hnt]
  cases hk : nextType p.rdbuf with
  | array =>
    simp only [hk] at hf ⊢
    rcases hr : readElement 42 numeral p.rdbuf with e | _ | ⟨n, a⟩
    · rw [readElement_push_error hv v hr]; exact ⟨e, rfl⟩
    · rw [hr] at hf; simp [TurnFinal] at hf
    · rw [readElement_push_some hv v hr]
      rw [hr] at hf
      dsimp only at hf ⊢
      split_ifs at hf ⊢
      · exact ⟨_, rfl⟩
      have hs := dictPairs_push lim db v (p := p.withBuf a) (k := n / 2)
        (hv.behind (readElement_some hr).behind)
      rw [← Parser.withBuf_push]
      rcases hd : dictPairs lim db (p.withBuf a) (n / 2) with e | ⟨_ | _, q⟩
      · obtain ⟨e', he'⟩ := (hs (by rw [hd]; trivial)).error hd
        rw [he']; exact ⟨e', rfl⟩
      · rw [hd] at hf; simp [TurnFinal] at hf
      · rw [(hs (by rw [hd]; rfl)).ok hd]; rfl
  | again => exact absurd hk hnt
  | _ => rfl

/-- A unit that is written, or rejected, is so whatever bytes follow it. -/
theorem dataStep_push (hv : p.rdbuf.Valid) (hf : TurnFinal (fun _ => False) (dataStep lim db parseTs p)) :
    TurnSettles v id (dataStep lim db parseTs p) (dataStep lim db parseTs (p.push v)) := by
  unfold dataStep at hf ⊢
  have hi := parseIds_push lim db v hv
  rcases h1 : parseIds lim db p with e | ⟨_ | w, p₁⟩
  · obtain ⟨e', he'⟩ := (hi (by rw [h1]; trivial)).error h1
    rw [he']; exact ⟨e', rfl⟩
  · rw [h1] at hf; exact absurd hf id
  rw [(hi (by rw [h1]; rfl)).ok h1]
  rw [h1] at hf
  dsimp only at hf ⊢
  have hv₁ : p₁.rdbuf.Valid := hv.behind (parseIds_past lim db h1).behind
  have ht := parseTimestamp_push parseTs v hv₁
  rcases h2 : parseTimestamp parseTs p₁ with e | ⟨_ | ts, p₂⟩
  · obtain ⟨e', he'⟩ := (ht (by rw [h2]; trivial)).error h2
    rw [he']; exact ⟨e', rfl⟩
  · rw [h2] at hf; exact absurd hf id
  rw [(ht (by rw [h2]; rfl)).ok h2]
  rw [h2] at hf
  dsimp only at hf ⊢
  have hv₂ : p₂.rdbuf.Valid := hv₁.behind (parseTimestamp_behind parseTs h2)
  have hw := parseValues_push lim v hv₂ (w := w)
  rcases h3 : parseValues lim p₂ w with e | ⟨_ | _, p₃⟩
  · obtain ⟨e', he'⟩ := (hw (by rw [h3]; trivial)).error h3
    rw [he']; exact ⟨e', rfl⟩
  · rw [h3] at hf; exact absurd hf id
  rw [(hw (by rw [h3]; rfl)).ok h3]
  dsimp only
  rw [Parser.consume_push, writeColumns_push]
  rcases writeColumns lim db p₃.consume ts 0 w with e | q
  · exact ⟨e, rfl⟩
  · rfl

end Push

/-! ### Turns end at a boundary -/

section Rests

variable {σ α : Type} (lim : Limits) (db : DbSession σ) (parseTs : List UInt8 → Option Timestamp)
  {p : Parser σ}

/-- Every parser a turn hands on rests at a boundary: what it read is consumed, or given back by
`discard()`; `out` finds the parser in an exit value. -/
def TurnRests (out : α → Parser σ) : Turn σ α → Prop
  | .next p => p.rdbuf.Boundary
  | .exit (.ok x) => (out x).rdbuf.Boundary
  | .exit (.error _) => True

omit parseTs in
theorem dictStep_rests (hv : p.rdbuf.Valid) : TurnRests Prod.snd (dictStep lim db p) := by
  unfold dictStep
  split
  · exact hv.discard_boundary
  · split
    · trivial
    · exact hv.discard_boundary
    · rename_i hr
      have ha := hv.behind (readElement_some hr).behind
      split_ifs
      · trivial
      split
      · trivial
      · rename_i hd; exact (ha.behind (dictPairs_behind lim db hd)).discard_boundary
      · rename_i hd; exact (ha.behind (dictPairs_behind lim db hd)).consume_boundary
  · exact hv.discard_boundary

theorem dataStep_rests (hv : p.rdbuf.Valid) : TurnRests id (dataStep lim db parseTs p) := by
  unfold dataStep
  split
  · trivial
  · rename_i h1; rw [parseIds_none lim db h1]; exact hv.discard_boundary
  · rename_i h1
    have hv₁ := hv.behind (parseIds_past lim db h1).behind
    split
    · trivial
    · rename_i h2; exact (hv₁.behind (parseTimestamp_behind parseTs h2)).discard_boundary
    · rename_i h2
      have hv₂ := hv₁.behind (parseTimestamp_behind parseTs h2)
      split
      · trivial
      · rename_i h3; exact (hv₂.behind (parseValues_behind lim h3)).discard_boundary
      · rename_i h3
        split
        · trivial
        · rename_i h4
          show TurnRests id (.next _)
          simp only [TurnRests]
          rw [writeColumns_rdbuf lim db h4]
          exact (hv₂.behind (parseValues_behind lim h3)).consume_boundary

end Rests

/-! ### The loops -/

section Loops

variable {σ : Type} (lim : Limits) (db : DbSession σ) (parseTs : List UInt8 → Option Timestamp)
  (v : List UInt8)

omit parseTs in
/-- `parse_dict` ends on the same element, or throws again, whatever bytes follow. -/
theorem parseDict_push {p : Parser σ} (hv : p.rdbuf.Valid)
    (hf : Final (· = true) (parseDict lim db p)) :
    Settles v (parseDict lim db p) (parseDict lim db (p.push v)) := by
  induction p using parseDict.induct lim db with
  | case1 p p' ht ih =>
    have hs := dictStep_push lim db v hv (by rw [ht]; trivial)
    have hval := dictStep_rests lim db hv
    rw [ht] at hs hval
    rw [parseDict_of_next ht] at hf ⊢
    rw [parseDict_of_next hs]
    exact ih hval.valid hf
  | case2 p r ht =>
    rw [parseDict_of_exit ht] at hf ⊢
    have hs := dictStep_push lim db v hv (by rw [ht]; rcases r with _ | ⟨b, q⟩ <;> exact hf)
    rw [ht] at hs
    rcases r with e | ⟨b, q⟩
    · obtain ⟨e', he'⟩ := hs
      rw [parseDict_of_exit he']; exact ⟨e', rfl⟩
    · rw [parseDict_of_exit hs]; rfl

omit parseTs in
theorem parseDict_rests {p p' : Parser σ} {b : Bool} (hv : p.rdbuf.Valid)
    (h : parseDict lim db p = .ok (b, p')) : p'.rdbuf.Boundary := by
  induction p using parseDict.induct lim db with
  | case1 p q ht ih =>
    have hval := dictStep_rests lim db hv
    rw [ht] at hval
    rw [parseDict_of_next ht] at h
    exact ih hval.valid h
  | case2 p r ht =>
    have hval := dictStep_rests lim db hv
    rw [ht] at hval
    rw [parseDict_of_exit ht] at h
    subst h; exact hval

/-- A rejected unit is rejected whatever bytes follow. -/
theorem dataLoop_push_error {p : Parser σ} {e : Exception} (hv : p.rdbuf.Valid)
    (h : dataLoop lim db parseTs p = .error e) :
    ∃ e', dataLoop lim db parseTs (p.push v) = .error e' := by
  induction p using dataLoop.induct lim db parseTs with
  | case1 p p' ht ih =>
    have hs := dataStep_push lim db parseTs v hv (by rw [ht]; trivial)
    have hval := dataStep_rests lim db parseTs hv
    rw [ht] at hs hval
    rw [dataLoop_of_next ht] at h
    rw [dataLoop_of_next hs]
    exact ih hval.valid h
  | case2 p r ht =>
    rw [dataLoop_of_exit ht] at h
    subst h
    have hs := dataStep_push lim db parseTs v hv (by rw [ht]; trivial)
    rw [ht] at hs
    obtain ⟨e', he'⟩ := hs
    exact ⟨e', dataLoop_of_exit he'⟩

/-- A run that throws throws again on a longer stream. -/
theorem worker_push_error {p : Parser σ} {e : Exception} (hv : p.rdbuf.Valid)
    (h : worker lim db parseTs p = .error e) :
    ∃ e', worker lim db parseTs (p.push v) = .error e' := by
  unfold worker at h ⊢
  have hs := parseDict_push lim db v hv
  rcases hd : parseDict lim db p with e₁ | ⟨_ | _, q⟩
  · obtain ⟨e', he'⟩ := (hs (by rw [hd]; trivial)).error hd
    rw [he']; exact ⟨e', rfl⟩
  · rw [hd] at h; cases h
  · rw [hd] at h
    rw [(hs (by rw [hd]; rfl)).ok hd]
    exact dataLoop_push_error lim db parseTs v (parseDict_rests lim db hv hd).valid h

end Loops


end RESP

end Stdb
