import Stdb.RESPEncode
import Stdb.RESPDict

/-!
# RESP sessions: the dictionary, then the units

The header of `protocolparser.h` documents a session of the RESP protocols: dictionary arrays
(zero or more) of name–id pairs come first, then protocol data units, each naming its series by
a series name or by a user id of the dictionary.  `parse_dict` resolves the name of each pair and
registers its row under the user id (`update_dict`); `parse_ids` reads a user id back through
`read_dict`.  This module writes sessions as bytes (`encodeSession`), says what the protocol
does with them (`registerDicts`, then `keyedRun`), and shows that the parser does it.

* `Denotes`: `idmap_` holds the dictionary, each row reversed as `update_dict` inserts it; every
  pair `parse_dict` reads keeps it so (`Denotes.update`);
* `dictPairs_encode`, `dictStep_encodeDict` and `parseDict_encodeDicts`: dictionary arrays, read
  from their encoding;
* `dataLoop_keyed`: the data loop, from any boundary, over the encoding of keyed units;
* `parseNext_encodeUnits` and `feed_encodeUnits`: units named by their names, in one chunk and
  in any chunks;
* `parseNext_encodeSession` and `feed_encodeSession`: a dictionary, then units named by names or
  user ids, in one chunk and in any chunks.

A user id reads back its row reversed (`readDict_updateDict_fresh`), so the session results are
stated for dictionaries whose names each resolve to one series, the dictionary of the header's
data point example; a compound name in the dictionary sends its values to its series in reverse
order (`parseNext_dictionary_row_reversed`).
-/

namespace Stdb

namespace RESP

open LogicalStream

/-! ### Sessions, as a client writes them -/

/-- A name–id pair of a dictionary array. -/
def encodePair (e : List UInt8 × ℕ) : List UInt8 :=
  encodeElement 43 e.1 ++ encodeElement 58 (decimal e.2)

/-- A dictionary array: the number of its elements, then its name–id pairs. -/
def encodeDict (ps : List (List UInt8 × ℕ)) : List UInt8 :=
  encodeElement 42 (decimal (2 * ps.length)) ++ (ps.map encodePair).flatten

/-- A session: the dictionary arrays, then the units. -/
def encodeSession (dicts : List (List (List UInt8 × ℕ))) (us : List KeyedUnit) : List UInt8 :=
  (dicts.map encodeDict).flatten ++ (us.map KeyedUnit.encode).flatten

/-! ### What the protocol does with a dictionary -/

section Protocol

variable {σ : Type} (lim : Limits) (db : DbSession σ)

/-- The pairs of a dictionary array, in order: each name is resolved in the session and its row
registered under the user id, unless the id is registered already.  The session state, the
calls made and the dictionary; `none` when a pair does not fit the parser (a name as
`SeriesKey.fits` asks, a user id below `2^64`) or its name resolves to no series. -/
def registerPairs (s : σ) (d : Dict) : List (List UInt8 × ℕ) → Option (σ × List DbCall × Dict)
  | [] => some (s, [], d)
  | e :: ps =>
    let r := db.nameToParamIdList s e.1 lim.maxRowWidth
    if fitsString lim.stringLengthMax e.1 && decide (e.2 < 2 ^ 64) && !r.1.isEmpty then
      (registerPairs r.2 (if (d.lookup e.2).isSome then d else (e.2, r.1) :: d) ps).map
        fun x => (x.1, .nameToParamIdList e.1 :: x.2.1, x.2.2)
    else none

/-- Dictionary arrays, one after the other. -/
def registerDicts (s : σ) (d : Dict) :
    List (List (List UInt8 × ℕ)) → Option (σ × List DbCall × Dict)
  | [] => some (s, [], d)
  | ps :: dicts =>
    if 2 * ps.length < 2 ^ 64 then
      match registerPairs lim db s d ps with
      | none => none
      | some (s', cs, d') => (registerDicts s' d' dicts).map fun x => (x.1, cs ++ x.2.1, x.2.2)
    else none

end Protocol

/-! ### `idmap_` holds the dictionary -/

/-- `idmap_` holds the dictionary `d`: the range of a user id is the row registered under it,
reversed as `update_dict` inserts it, and empty for an id not registered; every registered row
has a series. -/
structure Denotes (d : Dict) (m : IdMap) : Prop where
  range : ∀ uid, equalRange m uid = ((d.lookup uid).getD []).reverse
  row_ne : ∀ uid row, d.lookup uid = some row → row ≠ []

/-- A new parser's `idmap_` holds the empty dictionary. -/
theorem Denotes.nil : Denotes [] [] := ⟨fun _ => rfl, fun _ _ h => nomatch h⟩

theorem any_eq_equalRange (m : IdMap) (uid : ParamId) :
    (m.any fun e => e.1 = uid) = !(equalRange m uid).isEmpty := by
  induction m with
  | nil => rfl
  | cons x xs ih =>
    rw [List.any_cons, equalRange_cons, ih]
    by_cases hx : x.1 = uid <;> simp [hx]

/-- A user id is a key of `idmap_` exactly when it is registered. -/
theorem Denotes.any_eq {d : Dict} {m : IdMap} (h : Denotes d m) (uid : ParamId) :
    (m.any fun e => e.1 = uid) = (d.lookup uid).isSome := by
  rw [any_eq_equalRange, h.range]
  cases hl : d.lookup uid with
  | none => rfl
  | some row => simpa using h.row_ne uid row hl

/-- `update_dict` of a row with a series: `idmap_` goes on holding the dictionary, the pair
registered unless its user id already is. -/
theorem Denotes.update {d : Dict} {m : IdMap} (h : Denotes d m) (uid : ParamId)
    {row : List ParamId} (hrow : row ≠ []) :
    Denotes (if (d.lookup uid).isSome then d else (uid, row) :: d) (updateDict m uid row).2 := by
  by_cases hl : (d.lookup uid).isSome
  · rw [if_pos hl, updateDict_of_mem row ((h.any_eq uid).trans hl)]
    exact h
  · have hfresh : (m.any fun e => e.1 = uid) = false :=
      (h.any_eq uid).trans (Bool.eq_false_iff.2 hl)
    have hu : (updateDict m uid row).2 = insertRow m uid row := by
      simp [updateDict, hfresh, insertRow]
    rw [if_neg hl, hu]
    constructor
    · intro k
      rw [List.lookup_cons]
      split
      · -- the registered user id: its row, reversed
        rename_i hk
        obtain rfl : k = uid := by simpa using hk
        rw [equalRange_insertRow_self, equalRange_of_fresh hfresh, List.append_nil]
        rfl
      · -- every other user id: as before
        rename_i hk
        have hne : uid ≠ k := fun e => by simp [e] at hk
        rw [equalRange_insertRow_of_ne _ _ hne, h.range k]
    · intro k r hr
      simp only [List.lookup_cons] at hr
      split at hr
      · cases hr; exact hrow
      · exact h.row_ne k r hr

/-- In a dictionary of rows of one series, `read_dict` of a registered user id returns its row. -/
theorem Denotes.readDict_eq {d : Dict} {m : IdMap} (h : Denotes d m)
    (hone : ∀ e ∈ d, e.2.length = 1) {w : ℕ} (hw : 0 < w) {uid : ParamId} {row : List ParamId}
    (hl : d.lookup uid = some row) : readDict m uid w = row := by
  obtain ⟨x, rfl⟩ := List.length_eq_one.1 (hone _ (mem_of_lookup_eq_some hl))
  rw [readDict, h.range, hl, Option.getD_some, List.reverse_singleton]
  exact List.take_of_length_le hw

/-! ### Reading the dictionary -/

section Dictionary

variable {σ : Type} (lim : Limits) (db : DbSession σ) {p : Parser σ} {rest : List UInt8}

/-- The pairs of a dictionary array, read from their encoding: each name is resolved and the pair
registered in `idmap_`, which goes on holding the dictionary. -/
theorem dictPairs_encode {ps : List (List UInt8 × ℕ)} {d d' : Dict} {s' : σ} {cs : List DbCall}
    (hu : p.rdbuf.unread = (ps.map encodePair).flatten ++ rest) (hm : Denotes d p.idmap)
    (hr : registerPairs lim db p.session d ps = some (s', cs, d')) :
    ∃ q, dictPairs lim db p ps.length = .ok (true, q) ∧ q.session = s' ∧
      q.calls = p.calls ++ cs ∧ Denotes d' q.idmap ∧
      q.rdbuf = p.rdbuf.advance (ps.map encodePair).flatten.length := by
  induction ps generalizing p d s' cs with
  | nil =>
    cases hr
    exact ⟨p, rfl, rfl, (List.append_nil _).symm, hm, rfl⟩
  | cons e ps ih =>
    simp only [registerPairs] at hr
    split at hr
    case isFalse => cases hr
    rename_i hf
    simp only [Bool.and_eq_true, decide_eq_true_eq, Bool.not_eq_true', List.isEmpty_eq_false] at hf
    obtain ⟨⟨hn, huid⟩, hne⟩ := hf
    obtain ⟨⟨s'', cs'', d''⟩, hr', he⟩ := Option.map_eq_some'.1 hr
    simp only [Prod.mk.injEq] at he
    obtain ⟨rfl, rfl, rfl⟩ := he
    -- the name, then the user id
    have hu₁ : p.rdbuf.unread = encodeElement 43 e.1 ++
        (encodeElement 58 (decimal e.2) ++ ((ps.map encodePair).flatten ++ rest)) := by
      simpa only [List.map_cons, List.flatten_cons, encodePair, List.append_assoc] using hu
    have hu₂ := unread_advance_append hu₁
    have hk₁ : nextType p.rdbuf = .string := (nextType_encode hu₁).trans rfl
    have hk₂ : nextType (p.rdbuf.advance (encodeElement 43 e.1).length) = .integer :=
      (nextType_encode hu₂).trans rfl
    obtain ⟨q, hq, hs, hc, hm', hqr⟩ := ih (p := { p with
        rdbuf := (p.rdbuf.advance (encodeElement 43 e.1).length).advance
          (encodeElement 58 (decimal e.2)).length,
        session := (db.nameToParamIdList p.session e.1 lim.maxRowWidth).2,
        calls := p.calls ++ [.nameToParamIdList e.1],
        idmap := (updateDict p.idmap e.2 (db.nameToParamIdList p.session e.1 lim.maxRowWidth).1).2 })
      (unread_advance_append hu₂) (hm.update e.2 hne) hr'
    refine ⟨q, ?_, hs, ?_, hm', ?_⟩
    · simp only [List.length_cons, dictPairs, hk₁, readString_encode hu₁ hn, hne, if_false, hk₂,
        readInt_encode hu₂ huid]
      exact hq
    · rw [hc, List.append_assoc]; rfl
    · simp only [hqr, advance_advance, List.map_cons, List.flatten_cons, encodePair,
        List.length_append, Nat.add_assoc]

/-- A dictionary array, read from its encoding and consumed. -/
theorem dictStep_encodeDict {ps : List (List UInt8 × ℕ)} {d d' : Dict} {s' : σ} {cs : List DbCall}
    (hu : p.rdbuf.unread = encodeDict ps ++ rest) (hlen : 2 * ps.length < 2 ^ 64)
    (hm : Denotes d p.idmap) (hr : registerPairs lim db p.session d ps = some (s', cs, d')) :
    ∃ q, dictStep lim db p = .next q ∧ q.session = s' ∧ q.calls = p.calls ++ cs ∧
      Denotes d' q.idmap ∧ q.rdbuf = (p.rdbuf.advance (encodeDict ps).length).consume := by
  have hu₁ : p.rdbuf.unread = encodeElement 42 (decimal (2 * ps.length)) ++
      ((ps.map encodePair).flatten ++ rest) := by
    simpa only [encodeDict, List.append_assoc] using hu
  have hk : nextType p.rdbuf = .array := (nextType_encode hu₁).trans rfl
  have ha := readElement_encode (f := numeral) hu₁ (cr_not_mem_decimal _) (numeral_decimal hlen)
  obtain ⟨q, hq, hs, hc, hm', hqr⟩ := dictPairs_encode lim db
    (p := p.withBuf (p.rdbuf.advance (encodeElement 42 (decimal (2 * ps.length))).length))
    (unread_advance_append hu₁) hm hr
  refine ⟨q.consume, ?_, hs, hc, hm', ?_⟩
  · simp only [dictStep, hk, readArraySize, ha, Nat.mul_mod_right, ne_eq, not_true_eq_false,
      if_false, Nat.mul_div_cancel_left _ Nat.zero_lt_two, hq]
  · simp only [Parser.consume_rdbuf, hqr, Parser.withBuf_rdbuf, advance_advance, encodeDict,
      List.length_append]

/-- Dictionary arrays, read from their encoding one after the other: `parse_dict` goes on at the
boundary after them, with `idmap_` holding the dictionary they register. -/
theorem parseDict_encodeDicts (dicts : List (List (List UInt8 × ℕ))) {d d' : Dict} {s' : σ}
    {cs : List DbCall} (hb : p.rdbuf.Boundary) (hu : p.rdbuf.unread = (dicts.map encodeDict).flatten ++ rest)
    (hm : Denotes d p.idmap) (hr : registerDicts lim db p.session d dicts = some (s', cs, d')) :
    ∃ q, parseDict lim db p = parseDict lim db q ∧ q.session = s' ∧ q.calls = p.calls ++ cs ∧
      Denotes d' q.idmap ∧ q.rdbuf.Boundary ∧ q.rdbuf.unread = rest := by
  induction dicts generalizing p d s' cs with
  | nil =>
    cases hr
    exact ⟨p, rfl, rfl, (List.append_nil _).symm, hm, hb, hu⟩
  | cons ps dicts ih =>
    simp only [registerDicts] at hr
    split at hr
    case isFalse => cases hr
    rename_i hlen
    split at hr
    · cases hr
    rename_i s₁ cs₁ d₁ hp
    obtain ⟨⟨s'', cs'', d''⟩, hr', he⟩ := Option.map_eq_some'.1 hr
    simp only [Prod.mk.injEq] at he
    obtain ⟨rfl, rfl, rfl⟩ := he
    have hu₁ : p.rdbuf.unread = encodeDict ps ++ ((dicts.map encodeDict).flatten ++ rest) := by
      simpa only [List.map_cons, List.flatten_cons, List.append_assoc] using hu
    obtain ⟨q₁, hq₁, hs₁, hc₁, hm₁, hr₁⟩ := dictStep_encodeDict lim db hu₁ hlen hm hp
    have hn : (encodeDict ps).length ≤ p.rdbuf.unread.length := by
      rw [hu₁, List.length_append]; exact Nat.le_add_right _ _
    have hb₁ : q₁.rdbuf.Boundary := hr₁ ▸ (hb.valid.behind ⟨_, hn, rfl⟩).consume_boundary
    have hu₂ : q₁.rdbuf.unread = (dicts.map encodeDict).flatten ++ rest :=
      hr₁ ▸ unread_advance_append hu₁
    obtain ⟨q, hq, hs, hc, hm', hqb, hqu⟩ := ih hb₁ hu₂ hm₁ (hs₁ ▸ hr')
    exact ⟨q, (parseDict_of_next hq₁).trans hq, hs, by rw [hc, hc₁, List.append_assoc], hm', hqb,
      hqu⟩

end Dictionary

/-! ### Whole runs -/

section Run

variable {σ : Type} (lim : Limits) (db : DbSession σ) (parseTs : List UInt8 → Option Timestamp)

/-- A run of the parser against what the protocol does with the units it read: the same
exception, or the session state the protocol ends in, the calls it makes after `calls₀`, and the
stream used up to a boundary. -/
def Outcome (calls₀ : List DbCall) :
    Except Exception (Parser σ) → Except Exception (σ × List DbCall) → Prop
  | .ok q, .ok (s, cs) =>
    q.session = s ∧ q.calls = calls₀ ++ cs ∧ q.rdbuf.Boundary ∧ q.rdbuf.unread = []
  | .error e, .error e' => e = e'
  | _, _ => False

/-- Calls made before a run move from the protocol's side into `calls₀`. -/
theorem Outcome.map_calls {calls₀ c : List DbCall} {r : Except Exception (Parser σ)}
    {res : Except Exception (σ × List DbCall)} (h : Outcome (calls₀ ++ c) r res) :
    Outcome calls₀ r (res.map fun x => (x.1, c ++ x.2)) := by
  rcases r with e | q <;> rcases res with e' | ⟨s, cs⟩
  all_goals simp only [Outcome, Except.map, List.append_assoc] at h ⊢
  all_goals exact h

omit lim db parseTs in
theorem nextType_keyed {a : LogicalStream} {us : List KeyedUnit}
    (hu : a.unread = (us.map KeyedUnit.encode).flatten) : nextType a ≠ .array := by
  cases us with
  | nil => simp only [nextType, hu, List.map_nil, List.flatten_nil]; decide
  | cons u us =>
    obtain ⟨k, st, vs⟩ := u
    have hu' : a.unread = k.encode ++
        (st.encode ++ (encodeValues vs ++ (us.map KeyedUnit.encode).flatten)) := by
      simp only [hu, List.map_cons, List.flatten_cons, KeyedUnit.encode, List.append_assoc]
    cases k <;> rw [nextType_encode hu'] <;> decide

/-- The data loop over the encoding of keyed units does what the protocol does with them, from
any boundary where `idmap_` reads back the dictionary `d`: unit after unit is read, resolved and
written, until the stream is used up or a write fails. -/
theorem dataLoop_keyed (hlim : lim.maxEventLen + lim.sizeofSample ≤ 2 ^ 16) (d : Dict)
    (us : List KeyedUnit) {p : Parser σ} {res : Except Exception (σ × List DbCall)}
    (hdict : ∀ uid row, d.lookup uid = some row → readDict p.idmap uid lim.maxRowWidth = row)
    (hb : p.rdbuf.Boundary) (hu : p.rdbuf.unread = (us.map KeyedUnit.encode).flatten)
    (hr : keyedRun lim db parseTs d p.session us = some res) :
    Outcome p.calls (dataLoop lim db parseTs p) res := by
  induction us generalizing p res with
  | nil =>
    cases hr
    have hs : dataStep lim db parseTs p = .exit (.ok p) := by
      simp only [dataStep, parseIds, nextType, hu, List.map_nil, List.flatten_nil, Parser.discard,
        hb.discard_eq]
    rw [dataLoop_of_exit hs]
    exact ⟨rfl, (List.append_nil _).symm, hb, by simpa using hu⟩
  | cons u us ih =>
    have hu' : p.rdbuf.unread = u.encode ++ (us.map KeyedUnit.encode).flatten := by
      simpa only [List.map_cons, List.flatten_cons] using hu
    simp only [keyedRun] at hr
    split at hr
    case h_2 => cases hr
    rename_i row s₁ cs₁ ts hres ht
    split at hr
    case isFalse => cases hr
    rename_i hf
    have hstep := dataStep_keyed lim db parseTs hlim hdict hu' hres ht hf
    split at hr
    case h_1 e hw =>
      cases hr
      rw [dataLoop_of_exit (hstep.1 e hw)]
      rfl
    case h_2 s cs hw =>
      obtain ⟨q, hq, hs, hc, hm, hrb⟩ := hstep.2 s cs hw
      obtain ⟨res', hr', rfl⟩ := Option.map_eq_some'.1 hr
      have hn : u.encode.length ≤ p.rdbuf.unread.length := by
        rw [hu', List.length_append]; exact Nat.le_add_right _ _
      have hqb : q.rdbuf.Boundary := hrb ▸ (hb.valid.behind ⟨_, hn, rfl⟩).consume_boundary
      have hqu : q.rdbuf.unread = (us.map KeyedUnit.encode).flatten := hrb ▸ unread_advance_append hu'
      have := ih (by rw [hm]; exact hdict) hqb hqu (hs ▸ hr')
      rw [hc, List.append_assoc] at this
      rw [dataLoop_of_next hq]
      exact Outcome.map_calls this

/-- Keyed units sent in one chunk to a parser that has used up its stream, with `idmap_` reading
back the dictionary `d`: what the parser does is what the protocol does with the units. -/
theorem parseNext_keyed (hlim : lim.maxEventLen + lim.sizeofSample ≤ 2 ^ 16) (d : Dict)
    {p : Parser σ} (hdict : ∀ uid row, d.lookup uid = some row → readDict p.idmap uid lim.maxRowWidth = row)
    (hb : p.rdbuf.Boundary) (hu : p.rdbuf.unread = []) (us : List KeyedUnit)
    {res : Except Exception (σ × List DbCall)} (hr : keyedRun lim db parseTs d p.session us = some res) :
    Outcome p.calls (parseNext lim db parseTs p (us.map KeyedUnit.encode).flatten) res := by
  have hb' := hb.push (us.map KeyedUnit.encode).flatten
  have hu' : (p.rdbuf.push (us.map KeyedUnit.encode).flatten).unread = (us.map KeyedUnit.encode).flatten := by
    rw [unread_push hb.valid, hu, List.nil_append]
  show Outcome p.calls (worker lim db parseTs (p.push _)) res
  rw [worker_of_not_array lim db parseTs (p := p.push _) hb' (nextType_keyed hu')]
  exact dataLoop_keyed lim db parseTs hlim d us hdict hb' hu' hr

/-- A run in one chunk from a new parser that ends as the protocol does, every value written,
ends so in any chunks, for a session whose lookups leave it unchanged: the same session state,
the same samples in the same order, the stream used up. -/
theorem feed_of_outcome (hpure : db.LookupPure) (c : σ) {v : List UInt8}
    {chunks : List (List UInt8)} (hc : chunks.flatten = v) {s : σ} {cs : List DbCall}
    (h : Outcome [] (parseNext lim db parseTs (Parser.init c) v) (.ok (s, cs))) :
    ∃ r, feed lim db parseTs (Parser.init c) chunks = .ok r ∧ r.session = s ∧
      writes r.calls = writes cs ∧ r.rdbuf.unread = [] := by
  rcases hn : parseNext lim db parseTs (Parser.init c) v with e | r <;> rw [hn] at h
  · exact h.elim
  obtain ⟨hs, hcalls, -, hun⟩ := h
  obtain ⟨r', hf, he⟩ := feed_of_feed_flatten lim db parseTs hpure c chunks (r := r)
    (by rw [hc]; exact feed_run hn rfl)
  refine ⟨r', hf, (congrArg Parser.session he.1).trans hs, he.2.trans ?_, ?_⟩
  · rw [hcalls]; rfl
  · rw [he.rdbuf_eq, hun]

/-! ### Units named by their names -/

/-- A naming session with a two-series row `cpu` and a one-series row `mem`. -/
def cpuTable : List (List UInt8 × List ParamId) := [(ascii "cpu", [1, 2]), (ascii "mem", [3])]

/-- A row of two integers at time `5`, then a data point at time `6`. -/
def cpuUnits : List DataUnit :=
  [⟨ascii "cpu", .nanos 5, [.int 3, .int 4]⟩, ⟨ascii "mem", .nanos 6, [.int 7]⟩]

/-- The calls the protocol makes for `cpuUnits`. -/
def cpuCalls : List DbCall :=
  [.nameToParamIdList (ascii "cpu"), .write ⟨1, 5, ⟨.float, 40, .ofU64 3, []⟩⟩,
    .write ⟨2, 5, ⟨.float, 40, .ofU64 4, []⟩⟩,
   .nameToParamIdList (ascii "mem"), .write ⟨3, 6, ⟨.float, 40, .ofU64 7, []⟩⟩]

/-- The data point and row protocols, sent in one chunk to a parser that has used up its
stream: what the parser does is what the protocol does with the units, the same exception
included. -/
theorem parseNext_encodeUnits (hlim : lim.maxEventLen + lim.sizeofSample ≤ 2 ^ 16)
    {p : Parser σ} (hb : p.rdbuf.Boundary) (hu : p.rdbuf.unread = []) (us : List DataUnit)
    {res : Except Exception (σ × List DbCall)}
    (hr : protocolRun lim db parseTs p.session us = some res) :
    Outcome p.calls (parseNext lim db parseTs p (encodeUnits us)) res := by
  rw [encodeUnits_eq_keyed]
  rw [protocolRun_eq_keyedRun] at hr
  exact parseNext_keyed lim db parseTs hlim [] (fun _ _ h => nomatch h) hb hu _ hr

theorem parseNext_encodeUnits_cpu :
    Limits.default.maxEventLen + Limits.default.sizeofSample ≤ 2 ^ 16 ∧
      protocolRun Limits.default (DbSession.naming cpuTable) (fun _ => none) () cpuUnits =
        some (.ok ((), cpuCalls)) ∧
      Outcome [] (parseNext Limits.default (DbSession.naming cpuTable) (fun _ => none)
        (Parser.init ()) (encodeUnits cpuUnits)) (.ok ((), cpuCalls)) :=
  ⟨by decide, rfl, parseNext_encodeUnits _ _ _ (by decide) (Parser.init_boundary ()) rfl cpuUnits rfl⟩

/-- The data point and row protocols, sent in any chunks to a new parser over a session whose
lookups leave it unchanged: when the protocol writes every value, the parser ends in its session
state, having written the same samples in the same order, with its stream used up. -/
theorem feed_encodeUnits (hlim : lim.maxEventLen + lim.sizeofSample ≤ 2 ^ 16)
    (hpure : db.LookupPure) (c : σ) (us : List DataUnit) {chunks : List (List UInt8)}
    (hc : chunks.flatten = encodeUnits us) {s : σ} {cs : List DbCall}
    (hr : protocolRun lim db parseTs c us = some (.ok (s, cs))) :
    ∃ r, feed lim db parseTs (Parser.init c) chunks = .ok r ∧ r.session = s ∧
      writes r.calls = writes cs ∧ r.rdbuf.unread = [] := by
  rw [encodeUnits_eq_keyed] at hc
  rw [protocolRun_eq_keyedRun] at hr
  exact feed_of_outcome lim db parseTs hpure c hc
    (parseNext_keyed lim db parseTs hlim [] (fun _ _ h => nomatch h) (Parser.init_boundary c) rfl _ hr)

theorem feed_encodeUnits_cpu_split :
    Limits.default.maxEventLen + Limits.default.sizeofSample ≤ 2 ^ 16 ∧
      [(encodeUnits cpuUnits).take 7, (encodeUnits cpuUnits).drop 7].flatten = encodeUnits cpuUnits ∧
      ∃ r, feed Limits.default (DbSession.naming cpuTable) (fun _ => none) (Parser.init ())
          [(encodeUnits cpuUnits).take 7, (encodeUnits cpuUnits).drop 7] = .ok r ∧
        r.session = () ∧ writes r.calls = writes cpuCalls ∧ r.rdbuf.unread = [] :=
  have hc : [(encodeUnits cpuUnits).take 7, (encodeUnits cpuUnits).drop 7].flatten =
      encodeUnits cpuUnits := by
    simp only [List.flatten_cons, List.flatten_nil, List.append_nil, List.take_append_drop]
  ⟨by decide, hc, feed_encodeUnits _ _ _ (by decide) (DbSession.naming_lookupPure cpuTable) () cpuUnits
    hc rfl⟩

/-! ### A dictionary, then units -/

/-- From a boundary where `idmap_` holds the dictionary `d₀`: dictionary arrays, then keyed
units, make the calls the protocol makes, when every row the dictionary ends with has one
series. -/
theorem worker_encodeSession (hlim : lim.maxEventLen + lim.sizeofSample ≤ 2 ^ 16)
    (hw : 0 < lim.maxRowWidth) {p : Parser σ} {d₀ : Dict} (hm : Denotes d₀ p.idmap)
    (hb : p.rdbuf.Boundary) (dicts : List (List (List UInt8 × ℕ))) (us : List KeyedUnit)
    (hu : p.rdbuf.unread = encodeSession dicts us) {s : σ} {cs : List DbCall} {d : Dict}
    (hd : registerDicts lim db p.session d₀ dicts = some (s, cs, d)) (hone : ∀ e ∈ d, e.2.length = 1)
    {res : Except Exception (σ × List DbCall)} (hr : keyedRun lim db parseTs d s us = some res) :
    Outcome p.calls (worker lim db parseTs p) (res.map fun x => (x.1, cs ++ x.2)) := by
  obtain ⟨q, hpd, hs, hc, hmq, hqb, hqu⟩ := parseDict_encodeDicts lim db dicts hb hu hm hd
  -- after the dictionary the worker goes on as from `q`, where no array follows
  have hwq : worker lim db parseTs p = worker lim db parseTs q := by
    simp only [worker, hpd]
  rw [hwq, worker_of_not_array lim db parseTs hqb (nextType_keyed hqu)]
  have h := dataLoop_keyed lim db parseTs hlim d us (fun uid row hl => hmq.readDict_eq hone hw hl)
    hqb hqu (hs ▸ hr)
  rw [hc] at h
  exact Outcome.map_calls h

/-- A dictionary that registers `mem` under the user id `9`. -/
def memDict : List (List (List UInt8 × ℕ)) := [[(ascii "mem", 9)]]

/-- A data point addressed by the user id `9`, then a row named by its name. -/
def memUnits : List KeyedUnit :=
  [⟨.uid 9, .nanos 6, [.int 7]⟩, ⟨.name (ascii "cpu"), .nanos 5, [.int 3, .int 4]⟩]

/-- The calls the protocol makes for `memDict` and `memUnits`: the lookup is the dictionary's. -/
def memCalls : List DbCall :=
  [.nameToParamIdList (ascii "mem"), .write ⟨3, 6, ⟨.float, 40, .ofU64 7, []⟩⟩,
   .nameToParamIdList (ascii "cpu"), .write ⟨1, 5, ⟨.float, 40, .ofU64 3, []⟩⟩,
    .write ⟨2, 5, ⟨.float, 40, .ofU64 4, []⟩⟩]

/-- The dictionary protocol, sent in one chunk to a new parser: dictionary arrays, then units
named by series names or by user ids, make the calls the protocol makes, and a failed write
throws the protocol's `DatabaseError`, when every name of the dictionary resolves to one
series. -/
theorem parseNext_encodeSession (hlim : lim.maxEventLen + lim.sizeofSample ≤ 2 ^ 16)
    (hw : 0 < lim.maxRowWidth) (c : σ) (dicts : List (List (List UInt8 × ℕ))) (us : List KeyedUnit)
    {s : σ} {cs : List DbCall} {d : Dict} (hd : registerDicts lim db c [] dicts = some (s, cs, d))
    (hone : ∀ e ∈ d, e.2.length = 1) {res : Except Exception (σ × List DbCall)}
    (hr : keyedRun lim db parseTs d s us = some res) :
    Outcome [] (parseNext lim db parseTs (Parser.init c) (encodeSession dicts us))
      (res.map fun x => (x.1, cs ++ x.2)) :=
  worker_encodeSession lim db parseTs hlim hw (p := (Parser.init c).push (encodeSession dicts us))
    Denotes.nil ((Parser.init_boundary c).push _) dicts us
    (by rw [Parser.push_rdbuf, unread_push (Parser.init_boundary c).valid]; rfl) hd hone hr

theorem parseNext_encodeSession_mem :
    Limits.default.maxEventLen + Limits.default.sizeofSample ≤ 2 ^ 16 ∧ 0 < Limits.default.maxRowWidth ∧
      registerDicts Limits.default (DbSession.naming cpuTable) () [] memDict =
        some ((), [.nameToParamIdList (ascii "mem")], [(9, [3])]) ∧
      (∀ e ∈ ([(9, [3])] : Dict), e.2.length = 1) ∧
      keyedRun Limits.default (DbSession.naming cpuTable) (fun _ => none) [(9, [3])] () memUnits =
        some (.ok ((), memCalls.drop 1)) ∧
      Outcome [] (parseNext Limits.default (DbSession.naming cpuTable) (fun _ => none)
        (Parser.init ()) (encodeSession memDict memUnits)) (.ok ((), memCalls)) :=
  ⟨by decide, by decide, rfl, by decide, rfl,
    parseNext_encodeSession Limits.default (DbSession.naming cpuTable) (fun _ => none) (by decide)
      (by decide) () memDict memUnits rfl (by decide) rfl⟩

/-- The dictionary protocol, sent in any chunks to a new parser over a session whose lookups leave
it unchanged: when the protocol writes every value, the parser ends in its session state, having
written the same samples in the same order, with its stream used up. -/
theorem feed_encodeSession (hlim : lim.maxEventLen + lim.sizeofSample ≤ 2 ^ 16)
    (hw : 0 < lim.maxRowWidth) (hpure : db.LookupPure) (c : σ)
    (dicts : List (List (List UInt8 × ℕ))) (us : List KeyedUnit) {chunks : List (List UInt8)}
    (hc : chunks.flatten = encodeSession dicts us) {s : σ} {cs : List DbCall} {d : Dict}
    (hd : registerDicts lim db c [] dicts = some (s, cs, d)) (hone : ∀ e ∈ d, e.2.length = 1)
    {s' : σ} {cs' : List DbCall} (hr : keyedRun lim db parseTs d s us = some (.ok (s', cs'))) :
    ∃ r, feed lim db parseTs (Parser.init c) chunks = .ok r ∧ r.session = s' ∧
      writes r.calls = writes (cs ++ cs') ∧ r.rdbuf.unread = [] :=
  feed_of_outcome lim db parseTs hpure c hc
    (worker_encodeSession lim db parseTs hlim hw (p := (Parser.init c).push (encodeSession dicts us))
      Denotes.nil ((Parser.init_boundary c).push _) dicts us
      (by rw [Parser.push_rdbuf, unread_push (Parser.init_boundary c).valid]; rfl) hd hone hr)

theorem feed_encodeSession_mem_split :
    Limits.default.maxEventLen + Limits.default.sizeofSample ≤ 2 ^ 16 ∧ 0 < Limits.default.maxRowWidth ∧
      [(encodeSession memDict memUnits).take 12, (encodeSession memDict memUnits).drop 12].flatten =
        encodeSession memDict memUnits ∧
      registerDicts Limits.default (DbSession.naming cpuTable) () [] memDict =
        some ((), [.nameToParamIdList (ascii "mem")], [(9, [3])]) ∧
      (∀ e ∈ ([(9, [3])] : Dict), e.2.length = 1) ∧
      keyedRun Limits.default (DbSession.naming cpuTable) (fun _ => none) [(9, [3])] () memUnits =
        some (.ok ((), memCalls.drop 1)) ∧
      ∃ r, feed Limits.default (DbSession.naming cpuTable) (fun _ => none) (Parser.init ())
          [(encodeSession memDict memUnits).take 12, (encodeSession memDict memUnits).drop 12] = .ok r ∧
        r.session = () ∧ writes r.calls = writes memCalls ∧ r.rdbuf.unread = [] :=
  have hc : [(encodeSession memDict memUnits).take 12, (encodeSession memDict memUnits).drop 12].flatten =
      encodeSession memDict memUnits := by
    simp only [List.flatten_cons, List.flatten_nil, List.append_nil, List.take_append_drop]
  ⟨by decide, by decide, hc, rfl, by decide, rfl,
    feed_encodeSession Limits.default (DbSession.naming cpuTable) (fun _ => none) (by decide)
      (by decide) (DbSession.naming_lookupPure cpuTable) () memDict memUnits hc rfl (by decide) rfl⟩

end Run

end RESP

end Stdb
