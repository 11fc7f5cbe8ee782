import Stdb.OpenTSDBPut

/-!
# `put` lines, one after the other

`worker()` reads a line with `read_line`, dispatches it, and on `put` skips the fields with
`skip_element`, rotates the tags before the timestamp, writes the sample and consumes the line.
On a buffer whose unread bytes are well-formed `put` lines that fit the line buffer, followed by
the start of a further line, the whole loop is `putLines`: each line's metric, tags, timestamp
and value handed to the write, the line consumed, until the partial line, which is left unread
and unconsumed for the next chunk (`worker_putLines`).  What a successful run leaves
(`putLines_ok`): each line's sample goes to the series `series_to_param_id` returned for it, and
the session is threaded through the calls line by line (`sessionAfter`).
-/

namespace Stdb

namespace OpenTSDB

section Run

variable {σ : Type} (lim : Limits) (db : DbSession σ)
  (parseTimestamp : List UInt8 → Option Timestamp)

/-- The lines `ps` handled one after the other from the buffer `s`: each line is read, its fields
go to the write with the buffer after the line, and it is consumed; the first exception ends the
run, and after the last line the empty response is returned. -/
def putLines (s : ReadBuffer) (c : σ) (calls : List DbCall) :
    List PutLine → Except Exception (Response × ReadBuffer × σ × List DbCall)
  | [] => .ok (none, s, c, calls)
  | p :: ps =>
    let s' := { s with rpos := u32 (s.rpos + p.bytes.length) }
    (putSample db parseTimestamp s' c calls (p.metric ++ p.sp1 ++ p.tags)
        (p.ts ++ p.sp2 ++ p.value ++ p.sp3) p.ts.length (p.value ++ p.sp3) p.value.length).bind
      fun r => putLines s'.consume r.1 r.2 ps

/-- The session after `series_to_param_id` on each name and then the write of its sample, in
order; `none` unless each call returns `Ok` and each name's id is its sample's series. -/
def sessionAfter (c : σ) : List (List UInt8 × Sample) → Option σ
  | [] => some c
  | (name, x) :: rest =>
    let r := db.seriesToParamId c name
    if r.1 = .ok ∧ r.2.1 = x.paramid ∧ (db.write r.2.2 x).1 = .ok then
      sessionAfter (db.write r.2.2 x).2 rest
    else none

theorem sessionAfter_cons {c c₁ : σ} {name : List UInt8} {x : Sample}
    (h : sessionAfter db c [(name, x)] = some c₁) (rest : List (List UInt8 × Sample)) :
    sessionAfter db c ((name, x) :: rest) = sessionAfter db c₁ rest := by
  simp only [sessionAfter] at h ⊢
  split_ifs at h ⊢
  cases h; rfl

/-- A write the put branch made: one `series_to_param_id` on the name, then one write, to the
series it returned, of a float sample whose timestamp is the decoded timestamp field and whose
value is what `strtod` reads; both calls returned `Ok`, and the session is theirs. -/
theorem putSample_ok {s : ReadBuffer} {c : σ} {calls : List DbCall} {name pts pval : List UInt8}
    {eix tix : ℕ} {r : σ × List DbCall}
    (h : putSample db parseTimestamp s c calls name pts eix pval tix = .ok r) :
    ∃ x : Sample, r.2 = calls ++ [.seriesToParamId name, .write x] ∧
      sessionAfter db c [(name, x)] = some r.1 ∧
      decodeTimestamp parseTimestamp pts eix = some x.timestamp ∧
      x.payload.type = .float ∧ x.payload.float64 = (CLib.strtod pval).1 := by
  cases hts : decodeTimestamp parseTimestamp pts eix with
  | none => simp only [putSample, hts] at h; split_ifs at h
  | some ts =>
    simp only [putSample, hts] at h
    split_ifs at h with hid _ hw
    cases h
    refine ⟨⟨(db.seriesToParamId c name).2.1, ts, ⟨.float, 0, (CLib.strtod pval).1, []⟩⟩,
      by simp only [List.append_assoc, List.singleton_append], ?_, rfl, rfl, rfl⟩
    simp only [ne_eq, not_not] at hid hw
    simp [sessionAfter, hid, hw]

/-- What a successful run over put lines leaves: the empty response; the read position moved
past the lines and, after at least one line, the lines consumed; the write position and the
bytes untouched; and for each line, in order, one `series_to_param_id` on its metric and tags
and one write of a float sample, to the series that call returned, with its decoded timestamp
and the value `strtod` reads from its value field, the session being the one those calls leave. -/
theorem putLines_ok (ps : List PutLine) {s : ReadBuffer} (hw : s.wpos < 2 ^ 32)
    (hr : s.rpos + (ps.map PutLine.bytes).flatten.length ≤ s.wpos) {c : σ} {calls : List DbCall}
    {resp : Response} {s' : ReadBuffer} {c' : σ} {calls' : List DbCall}
    (h : putLines db parseTimestamp s c calls ps = .ok (resp, s', c', calls')) :
    resp = none ∧ s'.rpos = s.rpos + (ps.map PutLine.bytes).flatten.length ∧ s'.wpos = s.wpos ∧
      s'.buffer = s.buffer ∧ (ps ≠ [] → s'.cons = s'.rpos) ∧
      ∃ xs : List Sample, xs.length = ps.length ∧
        calls' = calls ++ (List.zipWith (fun p x =>
          [DbCall.seriesToParamId (p.metric ++ p.sp1 ++ p.tags), .write x]) ps xs).flatten ∧
        sessionAfter db c ((ps.map fun p => p.metric ++ p.sp1 ++ p.tags).zip xs) = some c' ∧
        ∀ i (hi : i < ps.length) (hx : i < xs.length),
          decodeTimestamp parseTimestamp (ps[i].ts ++ ps[i].sp2 ++ ps[i].value ++ ps[i].sp3)
            ps[i].ts.length = some xs[i].timestamp ∧
          xs[i].payload.type = .float ∧
          xs[i].payload.float64 = (CLib.strtod (ps[i].value ++ ps[i].sp3)).1 := by
  induction ps generalizing s c calls with
  | nil =>
    cases h
    exact ⟨rfl, by simp, rfl, rfl, fun h => absurd rfl h, [], rfl, by simp, rfl,
      fun i hi => absurd hi (Nat.not_lt_zero _)⟩
  | cons p ps ih =>
    rw [putLines] at h
    simp only [List.map_cons, List.flatten_cons, List.length_append] at hr ⊢
    rcases hp : putSample db parseTimestamp { s with rpos := u32 (s.rpos + p.bytes.length) } c calls
      (p.metric ++ p.sp1 ++ p.tags) (p.ts ++ p.sp2 ++ p.value ++ p.sp3) p.ts.length
      (p.value ++ p.sp3) p.value.length with e | r
    · rw [hp] at h; cases h
    obtain ⟨x, hcalls, hsess, hts, hpay⟩ := putSample_ok db parseTimestamp hp
    rw [hp] at h
    -- the line's length, kept opaque so that no unification unfolds the line
    generalize p.bytes.length = n at hr h ⊢
    rw [u32_of_lt (show s.rpos + n < 2 ^ 32 by omega)] at h
    obtain ⟨hresp, hrpos, hwpos, hbuf, hcons, xs, hlen, hcalls', hsess', hxs⟩ :=
      ih (s := ({ s with rpos := s.rpos + n } : ReadBuffer).consume) hw
        (show s.rpos + n + _ ≤ s.wpos by omega) h
    refine ⟨hresp, hrpos.trans (Nat.add_assoc _ _ _), hwpos, hbuf, fun _ => ?_, x :: xs,
      by simp only [List.length_cons, hlen], ?_, ?_, ?_⟩
    · by_cases hps : ps = []
      · subst hps; cases h; rfl
      · exact hcons hps
    · rw [hcalls', hcalls, List.zipWith_cons_cons, List.flatten_cons, List.append_assoc]
    · rw [List.zip_cons_cons, sessionAfter_cons db hsess, hsess']
    · intro i hi hx
      cases i with
      | zero => exact ⟨hts, hpay⟩
      | succ i => exact hxs i (Nat.lt_of_succ_lt_succ hi) (Nat.lt_of_succ_lt_succ hx)

/-- The unread bytes of a buffer that has not wrapped. -/
theorem bytes_unread_take {s : ReadBuffer} {m : ℕ} (hm : m ≤ s.wpos - s.rpos) :
    s.bytes s.rpos m = (s.bytes s.rpos (s.wpos - s.rpos)).take m :=
  (ReadBuffer.take_slice _ _ _ _ hm).symm

/-- The worker on well-formed `put` lines, each fitting the line buffer, followed by bytes with
no `'\n'` (the start of a further line, or nothing): it writes the lines one after the other as
`putLines` does, and leaves the partial line unread and unconsumed. -/
theorem worker_putLines (ps : List PutLine) {t : List UInt8} (ht : nl ∉ t)
    (hfit : ∀ p ∈ ps, p.bytes.length ≤ lineBufferLen lim) {s : ReadBuffer} (hw : s.wpos < 2 ^ 32)
    (hr : s.rpos ≤ s.wpos) (hbytes : s.bytes s.rpos (s.wpos - s.rpos) = (ps.map PutLine.bytes).flatten ++ t)
    (c : σ) (calls : List DbCall) :
    worker lim db parseTimestamp s c calls = putLines db parseTimestamp s c calls ps := by
  induction ps generalizing s c calls with
  | nil =>
    rw [putLines, worker_of_no_nl]
    rw [sub32_of_le hr hw, bytes_unread_take (min_le_right _ _), hbytes]
    exact fun hm => ht (List.mem_of_mem_take (by simpa using hm))
  | cons p ps ih =>
    have hlen : p.bytes.length = p.body.length + 1 := by simp [PutLine.bytes]
    have htot : p.bytes.length ≤ s.wpos - s.rpos := by
      have := congrArg List.length hbytes
      simp only [ReadBuffer.bytes, ReadBuffer.length_slice, List.map_cons, List.flatten_cons,
        List.length_append] at this
      omega
    have hline : s.bytes s.rpos (p.body.length + 1) = p.body ++ [nl] := by
      rw [← hlen, bytes_unread_take htot, hbytes, List.map_cons, List.flatten_cons,
        List.append_assoc, List.take_left]
      rfl
    have hrest : s.bytes (s.rpos + p.bytes.length) (s.wpos - s.rpos - p.bytes.length) =
        (ps.map PutLine.bytes).flatten ++ t := by
      rw [ReadBuffer.bytes, ← ReadBuffer.drop_slice _ _ _ _ htot, ← ReadBuffer.bytes, hbytes,
        List.map_cons, List.flatten_cons, List.append_assoc, List.drop_left]
    rw [worker_of_put_line p.nl_not_mem_body (hlen ▸ hfit p (List.mem_cons_self _ _))
      (by rw [sub32_of_le hr hw]; omega) hline p.isPut_bytes, show p.body ++ [nl] = p.bytes from rfl,
      putCommand_putLine, ← hlen, putLines]
    -- the line's length, kept opaque so that no unification unfolds the line
    generalize p.bytes.length = n at htot hrest ⊢
    rw [u32_of_lt (show s.rpos + n < 2 ^ 32 by omega)]
    refine congrArg _ (funext fun r => ?_)
    exact ih (fun q hq => hfit q (List.mem_cons_of_mem _ hq))
      (s := ({ s with rpos := s.rpos + n } : ReadBuffer).consume) hw
      (show s.rpos + n ≤ s.wpos by omega) (by rw [← Nat.sub_add_eq] at hrest; exact hrest) _ _

/-- The header's example line, then the start of another. -/
def putLineChunk : List UInt8 := headerPutLine.bytes ++ ascii "put"

theorem worker_putLines_header :
    nl ∉ ascii "put" ∧ (∀ p ∈ [headerPutLine], p.bytes.length ≤ lineBufferLen Limits.default) ∧
      (freshState putLineChunk).wpos < 2 ^ 32 ∧
      (freshState putLineChunk).rpos ≤ (freshState putLineChunk).wpos ∧
      (freshState putLineChunk).bytes (freshState putLineChunk).rpos
        ((freshState putLineChunk).wpos - (freshState putLineChunk).rpos) =
          ([headerPutLine].map PutLine.bytes).flatten ++ ascii "put" ∧
      worker Limits.default (DbSession.accepting 1) (fun _ => none) (freshState putLineChunk) () [] =
        putLines (DbSession.accepting 1) (fun _ => none) (freshState putLineChunk) () [] [headerPutLine] :=
  have hb : (freshState putLineChunk).bytes (freshState putLineChunk).rpos
      ((freshState putLineChunk).wpos - (freshState putLineChunk).rpos) =
        ([headerPutLine].map PutLine.bytes).flatten ++ ascii "put" := by
    rw [show (freshState putLineChunk).wpos - (freshState putLineChunk).rpos =
      putLineChunk.length by decide, bytes_freshState]
    rfl
  ⟨by decide, by decide, by decide, by decide, hb,
    worker_putLines _ _ _ [headerPutLine] (by decide) (by decide) (by decide) (by decide) hb () []⟩

theorem putLines_ok_header :
    (freshState putLineChunk).wpos < 2 ^ 32 ∧
      (freshState putLineChunk).rpos + ([headerPutLine].map PutLine.bytes).flatten.length ≤
        (freshState putLineChunk).wpos ∧
      ∃ resp s' c' calls', putLines (DbSession.accepting 1) (fun _ => none) (freshState putLineChunk)
          () [] [headerPutLine] = .ok (resp, s', c', calls') ∧
        resp = none ∧
        s'.rpos = (freshState putLineChunk).rpos + ([headerPutLine].map PutLine.bytes).flatten.length ∧
        s'.wpos = (freshState putLineChunk).wpos ∧ s'.buffer = (freshState putLineChunk).buffer ∧
        ([headerPutLine] ≠ [] → s'.cons = s'.rpos) ∧
        ∃ xs : List Sample, xs.length = [headerPutLine].length ∧
          calls' = [] ++ (List.zipWith (fun p x =>
            [DbCall.seriesToParamId (p.metric ++ p.sp1 ++ p.tags), .write x]) [headerPutLine] xs).flatten ∧
          sessionAfter (DbSession.accepting 1) ()
            (([headerPutLine].map fun p => p.metric ++ p.sp1 ++ p.tags).zip xs) = some c' ∧
          ∀ i (hi : i < [headerPutLine].length) (hx : i < xs.length),
            decodeTimestamp (fun _ => none) ([headerPutLine][i].ts ++ [headerPutLine][i].sp2 ++
              [headerPutLine][i].value ++ [headerPutLine][i].sp3) [headerPutLine][i].ts.length =
                some xs[i].timestamp ∧
            xs[i].payload.type = .float ∧
            xs[i].payload.float64 = (CLib.strtod ([headerPutLine][i].value ++ [headerPutLine][i].sp3)).1 :=
  have hw : (freshState putLineChunk).wpos < 2 ^ 32 := by decide
  have hr : (freshState putLineChunk).rpos + ([headerPutLine].map PutLine.bytes).flatten.length ≤
      (freshState putLineChunk).wpos := by decide
  have hout : putLines (DbSession.accepting 1) (fun _ => none) (freshState putLineChunk) () []
      [headerPutLine] = .ok _ := rfl
  ⟨hw, hr, _, _, _, _, hout, putLines_ok (DbSession.accepting 1) (fun _ => none) [headerPutLine] hw hr hout⟩

end Run

end OpenTSDB

end Stdb
