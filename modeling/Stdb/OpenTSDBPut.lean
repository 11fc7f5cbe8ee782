import Stdb.OpenTSDB

/-!
# The `put` line

What the worker does with a `put` line, field by field.  A well-formed line

    put SP+ metric SP+ ts SP+ value SP+ tags SP* '\n'

is `PutLine`, whose fields carry their own well-formedness.  The index arithmetic of the `put`
branch (the sizes `skip_element` returns, the rotate, the trailing spaces of the tags) comes
down to one statement: the branch hands the metric, the spaces after it and the tags to
`series_to_param_id`, the timestamp field to `strtoull` and the value field to `strtod`
(`putCommand_putLine`).  A line with fewer than four fields is `ShortPutLine`, and it is
rejected.
-/

namespace Stdb

namespace OpenTSDB

/-- A field of a `put` line: non-empty, with neither `' '` nor `'\n'`. -/
def IsField (f : List UInt8) : Prop := f ≠ [] ∧ ∀ c ∈ f, isSep c = false

instance : DecidablePred IsField := fun f =>
  inferInstanceAs (Decidable (f ≠ [] ∧ ∀ c ∈ f, isSep c = false))

/-! ### `skip_element` -/

theorem isSep_of_space {c : UInt8} (h : c = space) : isSep c = true := by
  simp [isSep, h]

theorem IsField.nl_not_mem {f : List UInt8} (h : IsField f) : nl ∉ f := fun hm => by
  simpa [isSep] using h.2 nl hm

theorem IsField.head_not_sep {f : List UInt8} (h : IsField f) (rest : List UInt8) :
    ∀ c ∈ (f ++ rest).head?, isSep c = false := by
  obtain ⟨d, f', rfl⟩ := List.exists_cons_of_ne_nil h.1
  simpa using h.2 d (List.mem_cons_self _ _)

/-- After `"put "`: the spaces that follow are skipped up to the first byte that is not one. -/
theorem pbuf_of_put {sp0 rest : List UInt8} (hne : sp0 ≠ []) (hsp : ∀ c ∈ sp0, c = space)
    (hrest : ∀ c ∈ rest.head?, c ≠ space) :
    ((ascii "put" ++ (sp0 ++ rest)).drop 4).dropWhile (· = space) = rest := by
  obtain ⟨d, sp0, rfl⟩ := List.exists_cons_of_ne_nil hne
  have hput : ascii "put" = [112, 117, 116] := by decide
  have hrest' : rest.dropWhile (· = space) = rest := by
    cases rest with
    | nil => rfl
    | cons e _ => exact List.dropWhile_cons_of_neg (by simpa using hrest e rfl)
  simp only [hput, List.cons_append, List.nil_append, List.drop_succ_cons, List.drop_zero]
  rw [List.dropWhile_append_of_pos fun c hc => decide_eq_true (hsp c (by simp [hc])), hrest']

/-- `skip_element` on an element, a non-empty run of separators and bytes that do not start
with a separator: the bytes after the run, and the length of the run. -/
theorem skipElement_append {f sp rest : List UInt8} (hf : ∀ c ∈ f, isSep c = false)
    (hsp : sp ≠ []) (hsep : ∀ c ∈ sp, isSep c = true) (hrest : ∀ c ∈ rest.head?, isSep c = false) :
    skipElement (f ++ (sp ++ rest)) = (rest, sp.length) := by
  obtain ⟨d, sp', rfl⟩ := List.exists_cons_of_ne_nil hsp
  have hd : isSep d = true := hsep d (List.mem_cons_self _ _)
  have hdrop : rest.dropWhile isSep = rest := by
    cases rest with
    | nil => rfl
    | cons e _ => exact List.dropWhile_cons_of_neg (by simpa using hrest e rfl)
  have htake : rest.takeWhile isSep = [] := by
    cases rest with
    | nil => rfl
    | cons e _ => exact List.takeWhile_cons_of_neg (by simpa using hrest e rfl)
  have helem : (f ++ (d :: sp' ++ rest)).dropWhile (fun c => !isSep c) = d :: sp' ++ rest := by
    rw [List.dropWhile_append_of_pos fun c hc => by simp [hf c hc], List.cons_append,
      List.dropWhile_cons_of_neg (by simp [hd])]
  simp only [skipElement, helem]
  rw [List.dropWhile_append_of_pos hsep, List.takeWhile_append_of_pos hsep, hdrop, htake,
    List.append_nil]

/-- `skip_element` on the last field of a line: nothing is left after it. -/
theorem skipElement_last {f sp : List UInt8} (hf : ∀ c ∈ f, isSep c = false)
    (hsp : ∀ c ∈ sp, c = space) : (skipElement (f ++ (sp ++ [nl]))).1 = [] := by
  have h : skipElement (f ++ ((sp ++ [nl]) ++ [])) = ([], (sp ++ [nl]).length) :=
    skipElement_append hf (by simp) (fun c hc => by
      rcases List.mem_append.mp hc with hc | hc
      · exact isSep_of_space (hsp c hc)
      · simp at hc; simp [isSep, hc])
    (by simp)
  rw [List.append_nil] at h
  rw [h]

/-! ### Well-formed lines -/

/-- A well-formed `put` line: `put SP+ metric SP+ ts SP+ value SP+ tags SP* '\n'`, with the
metric, the timestamp and the value fields, and tags that are non-empty, free of `'\n'` and
neither start nor end with a space. -/
structure PutLine where
  sp0 : List UInt8
  metric : List UInt8
  sp1 : List UInt8
  ts : List UInt8
  sp2 : List UInt8
  value : List UInt8
  sp3 : List UInt8
  tags : List UInt8
  sp4 : List UInt8
  sp0_ne : sp0 ≠ []
  sp1_ne : sp1 ≠ []
  sp2_ne : sp2 ≠ []
  sp3_ne : sp3 ≠ []
  spaces : ∀ c ∈ sp0 ++ sp1 ++ sp2 ++ sp3 ++ sp4, c = space
  metric_field : IsField metric
  ts_field : IsField ts
  value_field : IsField value
  tags_ne : tags ≠ []
  tags_no_nl : nl ∉ tags
  tags_head : ∀ c ∈ tags.head?, c ≠ space
  tags_last : ∀ c ∈ tags.getLast?, c ≠ space

namespace PutLine

/-- The bytes of the line before its `'\n'`. -/
def body (p : PutLine) : List UInt8 :=
  ascii "put" ++ p.sp0 ++ p.metric ++ p.sp1 ++ p.ts ++ p.sp2 ++ p.value ++ p.sp3 ++ p.tags ++ p.sp4

/-- The bytes of the line. -/
def bytes (p : PutLine) : List UInt8 := p.body ++ [nl]

variable (p : PutLine)

theorem tags_head_not_sep (rest : List UInt8) : ∀ c ∈ (p.tags ++ rest).head?, isSep c = false := by
  obtain ⟨d, t, ht⟩ := List.exists_cons_of_ne_nil p.tags_ne
  have h1 := p.tags_head d (by simp [ht])
  have h2 : d ≠ nl := fun h => p.tags_no_nl (by simp [ht, h])
  simp [ht, isSep, h1, h2]

theorem nl_not_mem_body : nl ∉ p.body := by
  have hput : nl ∉ ascii "put" := by decide
  have hsp : ∀ c ∈ p.sp0 ++ p.sp1 ++ p.sp2 ++ p.sp3 ++ p.sp4, c ≠ nl := fun c hc h => by
    have := p.spaces c hc; rw [h] at this; exact absurd this (by decide)
  simp only [body, List.mem_append, not_or] at hsp ⊢
  exact ⟨⟨⟨⟨⟨⟨⟨⟨⟨hput, fun h => hsp _ (.inl (.inl (.inl (.inl h)))) rfl⟩,
    p.metric_field.nl_not_mem⟩, fun h => hsp _ (.inl (.inl (.inl (.inr h)))) rfl⟩,
    p.ts_field.nl_not_mem⟩, fun h => hsp _ (.inl (.inl (.inr h))) rfl⟩,
    p.value_field.nl_not_mem⟩, fun h => hsp _ (.inl (.inr h)) rfl⟩, p.tags_no_nl⟩,
    fun h => hsp _ (.inr h) rfl⟩

/-- No `'\n'` before the end of the line. -/
theorem nl_not_mem_take {n : ℕ} (h : n ≤ p.body.length) : nl ∉ p.bytes.take n := fun hm =>
  p.nl_not_mem_body (List.mem_of_mem_take (by rwa [bytes, List.take_append_of_le_length h] at hm))

theorem isPut_bytes : isPut p.bytes := by
  obtain ⟨d, sp0, h0⟩ := List.exists_cons_of_ne_nil p.sp0_ne
  have hd : d = space := p.spaces d (by simp [h0])
  simp only [isPut, bytes, body, h0, hd, List.append_assoc, decide_eq_true_eq]
  rfl

/-- After `"put "` and the spaces that follow it: the line from the metric on. -/
theorem pbuf_eq :
    (p.bytes.drop 4).dropWhile (· = space) =
      p.metric ++ (p.sp1 ++ (p.ts ++ (p.sp2 ++ (p.value ++ (p.sp3 ++ (p.tags ++ (p.sp4 ++ [nl]))))))) := by
  simp only [bytes, body, List.append_assoc]
  exact pbuf_of_put p.sp0_ne (fun c hc => p.spaces c (by simp [hc]))
    fun c hc => by
      have := p.metric_field.head_not_sep _ c hc
      intro h; simp [h, isSep] at this

/-- The trailing separators of the tags part: the spaces after the tags and the `'\n'`. -/
theorem tagsTrailing_eq :
    ((p.tags ++ (p.sp4 ++ [nl])).tail.reverse.takeWhile isSep).length = p.sp4.length + 1 := by
  obtain ⟨t, ts, ht⟩ := List.exists_cons_of_ne_nil p.tags_ne
  have hsp4 : ∀ c ∈ p.sp4.reverse, isSep c = true := fun c hc =>
    isSep_of_space (p.spaces c (by simp only [List.mem_reverse] at hc; simp [hc]))
  have hlast : ts.reverse.takeWhile isSep = [] := by
    cases hr : ts.reverse with
    | nil => rfl
    | cons e _ =>
      have he : e ∈ p.tags.getLast? := by
        rw [ht, ← List.head?_reverse, List.reverse_cons, hr]; simp
      have hne : e ≠ nl := fun h => p.tags_no_nl (by
        rw [h] at he; exact List.mem_of_getLast?_eq_some he)
      exact List.takeWhile_cons_of_neg (by simp [isSep, p.tags_last e he, hne])
  simp [ht, List.takeWhile_append_of_pos hsp4, hlast, isSep, Nat.add_comm]

end PutLine

/-! ### Lines with fewer than four fields -/

/-- A `put` line with fewer than four fields: `put SP+` and then fields, each followed by its run
of spaces, which is non-empty but after the last field; then `'\n'`. -/
structure ShortPutLine where
  sp0 : List UInt8
  fields : List (List UInt8 × List UInt8)
  sp0_ne : sp0 ≠ []
  sp0_spaces : ∀ c ∈ sp0, c = space
  fields_lt : fields.length < 4
  fields_ok : ∀ f ∈ fields, IsField f.1 ∧ ∀ c ∈ f.2, c = space
  seps_ne : ∀ f ∈ fields.dropLast, f.2 ≠ []

namespace ShortPutLine

/-- The bytes of the line before its `'\n'`. -/
def body (p : ShortPutLine) : List UInt8 :=
  ascii "put" ++ p.sp0 ++ (p.fields.map fun f => f.1 ++ f.2).flatten

/-- The bytes of the line. -/
def bytes (p : ShortPutLine) : List UInt8 := p.body ++ [nl]

variable (p : ShortPutLine)

theorem nl_not_mem_body : nl ∉ p.body := by
  have hput : nl ∉ ascii "put" := by decide
  have hsp : ∀ {sp : List UInt8}, (∀ c ∈ sp, c = space) → nl ∉ sp := fun h hm =>
    absurd (h nl hm) (by decide)
  simp only [body, List.mem_append, List.mem_flatten, not_or]
  refine ⟨⟨hput, hsp p.sp0_spaces⟩, ?_⟩
  rintro ⟨_, hm', hm⟩
  obtain ⟨f, hf, rfl⟩ := List.mem_map.mp hm'
  rcases List.mem_append.mp hm with hm | hm
  · exact (p.fields_ok f hf).1.nl_not_mem hm
  · exact hsp (p.fields_ok f hf).2 hm

theorem isPut_bytes : isPut p.bytes := by
  obtain ⟨d, sp0, h0⟩ := List.exists_cons_of_ne_nil p.sp0_ne
  have hd : d = space := p.sp0_spaces d (by simp [h0])
  simp only [isPut, bytes, body, h0, hd, List.append_assoc, decide_eq_true_eq]
  rfl

/-- After `"put "` and the spaces that follow it: the fields and the `'\n'`. -/
theorem pbuf_eq :
    (p.bytes.drop 4).dropWhile (· = space) = (p.fields.map fun f => f.1 ++ f.2).flatten ++ [nl] := by
  simp only [bytes, body, List.append_assoc]
  refine pbuf_of_put p.sp0_ne p.sp0_spaces fun c hc => ?_
  cases hf : p.fields with
  | nil => simp only [hf, List.map_nil, List.flatten_nil, List.nil_append] at hc; cases hc; decide
  | cons f _ =>
    simp only [hf, List.map_cons, List.flatten_cons, List.append_assoc] at hc
    have := (p.fields_ok f (by simp [hf])).1.head_not_sep _ c hc
    intro h; simp [h, isSep] at this

end ShortPutLine

/-! ### The put branch on a well-formed line -/

/-- `std::rotate(a, b, pend)` with the tags `R` last: the tags move to the front. -/
theorem rotate_append (T V R : List UInt8) :
    rotate (T ++ (V ++ R)) ((T ++ (V ++ R)).length - R.length) = R ++ (T ++ V) := by
  have : (T ++ (V ++ R)).length - R.length = (T ++ V).length := by simp; omega
  rw [this, rotate, ← List.append_assoc, List.drop_left, List.take_left]

section Put

variable {σ : Type} (db : DbSession σ) (parseTimestamp : List UInt8 → Option Timestamp)

/-- The put branch once `skip_element` has cut the line after `"put "` into the metric part
`M`, the timestamp part `T`, the value part `V` (each with the spaces after it) and the rest
`R`: the series name is `M` followed by `R` without its trailing separators, the timestamp is
read from `T ++ V` and the value from `V`. -/
theorem putCommand_of_skip {s : ReadBuffer} {c : σ} {calls : List DbCall}
    {line M T V R : List UInt8} {k2 k3 : ℕ}
    (hline : (line.drop 4).dropWhile (· = space) = M ++ (T ++ (V ++ R)))
    (h1 : (skipElement (M ++ (T ++ (V ++ R)))).1 = T ++ (V ++ R))
    (h2 : skipElement (T ++ (V ++ R)) = (V ++ R, k2)) (h3 : skipElement (V ++ R) = (R, k3))
    (hR : R ≠ []) :
    putCommand db parseTimestamp s c calls line =
      putSample db parseTimestamp s c calls
        (M ++ R.take (R.length - (R.tail.reverse.takeWhile isSep).length))
        (T ++ V) (T.length - k2) V (V.length - k3) := by
  unfold putCommand
  simp only [hline, h1, h2, h3, rotate_append]
  rw [if_neg (by simp [hR]), if_neg (by simp [hR]), if_neg hR]
  have ht : (R.tail.reverse.takeWhile isSep).length < R.length + 1 :=
    (List.takeWhile_sublist _).length_le.trans_lt (by simp; omega)
  simp only [List.length_append, Nat.add_sub_cancel, List.take_left]
  rw [Nat.add_comm R.length, Nat.add_sub_assoc (by omega), List.take_append, List.drop_append,
    List.drop_left, List.drop_left, List.take_append_of_le_length (by omega)]

/-- On a well-formed line the put branch calls `series_to_param_id` on the metric, the spaces
after it and the tags, `strtoull` on the timestamp field (the fallback on the text from it to
the end of the line), and `strtod` on the value field, which must consume all of it. -/
theorem putCommand_putLine (p : PutLine) (s : ReadBuffer) (c : σ) (calls : List DbCall) :
    putCommand db parseTimestamp s c calls p.bytes =
      putSample db parseTimestamp s c calls (p.metric ++ p.sp1 ++ p.tags)
        (p.ts ++ p.sp2 ++ p.value ++ p.sp3) p.ts.length (p.value ++ p.sp3) p.value.length := by
  have hsp : ∀ {sp}, sp ∈ [p.sp1, p.sp2, p.sp3] → ∀ c ∈ sp, isSep c = true := fun hsp c hc =>
    isSep_of_space (p.spaces c (by simp at hsp; rcases hsp with rfl | rfl | rfl <;> simp [hc]))
  have h1 := skipElement_append p.metric_field.2 p.sp1_ne (hsp (by simp))
    (p.ts_field.head_not_sep (p.sp2 ++ (p.value ++ (p.sp3 ++ (p.tags ++ (p.sp4 ++ [nl]))))))
  have h2 := skipElement_append p.ts_field.2 p.sp2_ne (hsp (by simp))
    (p.value_field.head_not_sep (p.sp3 ++ (p.tags ++ (p.sp4 ++ [nl]))))
  have h3 := skipElement_append p.value_field.2 p.sp3_ne (hsp (by simp))
    (p.tags_head_not_sep (p.sp4 ++ [nl]))
  rw [putCommand_of_skip db parseTimestamp (M := p.metric ++ p.sp1) (T := p.ts ++ p.sp2)
    (V := p.value ++ p.sp3) (by simpa only [List.append_assoc] using p.pbuf_eq)
    (by simp only [List.append_assoc, h1]) (by simpa only [List.append_assoc] using h2)
    (by simpa only [List.append_assoc] using h3) (by simp), p.tagsTrailing_eq]
  simp only [List.length_append, Nat.add_sub_cancel, Nat.add_sub_add_right, List.length_singleton,
    List.take_left, List.append_assoc]

/-- A `put` line with fewer than four fields is rejected with `ProtocolParserError`. -/
theorem putCommand_shortPutLine (p : ShortPutLine) (s : ReadBuffer) (c : σ) (calls : List DbCall) :
    ∃ msg, putCommand db parseTimestamp s c calls p.bytes = .error (s.parserError msg) := by
  have hok := p.fields_ok
  have hsep := p.seps_ne
  have hlt := p.fields_lt
  have hp := p.pbuf_eq
  unfold putCommand
  rw [hp]
  rcases hf : p.fields with _ | ⟨⟨f1, s1⟩, _ | ⟨⟨f2, s2⟩, _ | ⟨⟨f3, s3⟩, _ | ⟨f4, _⟩⟩⟩⟩
  · exact ⟨_, if_pos rfl⟩
  · simp only [hf, List.mem_singleton, forall_eq] at hok
    simp only [List.map, List.flatten, List.append_nil, List.append_assoc,
      skipElement_last hok.1.2 hok.2, ↓reduceIte]
    exact ⟨_, rfl⟩
  · simp only [hf, List.mem_cons, List.mem_singleton, forall_eq_or_imp, forall_eq,
      List.not_mem_nil, or_false] at hok
    simp only [hf, List.dropLast, List.mem_singleton, forall_eq] at hsep
    simp only [List.map, List.flatten, List.append_nil, List.append_assoc,
      skipElement_append hok.1.1.2 hsep (fun c hc => isSep_of_space (hok.1.2 c hc))
        (hok.2.1.head_not_sep _), skipElement_last hok.2.1.2 hok.2.2,
      List.append_eq_nil, List.cons_ne_nil, and_false, ↓reduceIte]
    exact ⟨_, rfl⟩
  · simp only [hf, List.mem_cons, List.mem_singleton, forall_eq_or_imp, forall_eq,
      List.not_mem_nil, or_false] at hok
    simp only [hf, List.dropLast, List.mem_cons, List.mem_singleton, forall_eq_or_imp, forall_eq,
      List.not_mem_nil, or_false] at hsep
    simp only [List.map, List.flatten, List.append_nil, List.append_assoc,
      skipElement_append hok.1.1.2 hsep.1 (fun c hc => isSep_of_space (hok.1.2 c hc))
        (hok.2.1.1.head_not_sep _),
      skipElement_append hok.2.1.1.2 hsep.2 (fun c hc => isSep_of_space (hok.2.1.2 c hc))
        (hok.2.2.1.head_not_sep _), skipElement_last hok.2.2.1.2 hok.2.2.2,
      List.append_eq_nil, List.cons_ne_nil, and_false, ↓reduceIte]
    exact ⟨_, rfl⟩
  · simp only [hf, List.length_cons] at hlt; omega

end Put

/-! ### The worker on a `put` line -/

section Worker

variable {σ : Type} (lim : Limits) (db : DbSession σ)
  (parseTimestamp : List UInt8 → Option Timestamp)

/-- A `put` line at the read position that fits the line buffer: a well-formed line reaches
`series_to_param_id`, `strtoull` and `strtod` with exactly its fields (the put branch after
`std::rotate`, `putSample`), and the loop goes on after it when they succeed; a line with fewer
than four fields is rejected with `ProtocolParserError`. -/
theorem worker_putLine_fields :
    (∀ (p : PutLine) (s : ReadBuffer) (c : σ) (calls : List DbCall),
      p.bytes.length ≤ lineBufferLen lim → p.bytes.length ≤ sub32 s.wpos s.rpos →
      s.bytes s.rpos p.bytes.length = p.bytes →
      worker lim db parseTimestamp s c calls =
        (putSample db parseTimestamp { s with rpos := u32 (s.rpos + p.bytes.length) } c calls
          (p.metric ++ p.sp1 ++ p.tags) (p.ts ++ p.sp2 ++ p.value ++ p.sp3) p.ts.length
          (p.value ++ p.sp3) p.value.length).bind fun r =>
            worker lim db parseTimestamp
              { s with rpos := u32 (s.rpos + p.bytes.length) }.consume r.1 r.2) ∧
    (∀ (p : ShortPutLine) (s : ReadBuffer) (c : σ) (calls : List DbCall),
      p.bytes.length ≤ lineBufferLen lim → p.bytes.length ≤ sub32 s.wpos s.rpos →
      s.bytes s.rpos p.bytes.length = p.bytes →
      ∃ msg, worker lim db parseTimestamp s c calls =
        .error ({ s with rpos := u32 (s.rpos + p.bytes.length) }.parserError msg)) := by
  constructor
  · intro p s c calls hfit havail hbytes
    have hlen : p.bytes.length = p.body.length + 1 := by simp [PutLine.bytes]
    rw [hlen] at hfit havail hbytes ⊢
    rw [worker_of_put_line p.nl_not_mem_body hfit havail hbytes p.isPut_bytes,
      show p.body ++ [nl] = p.bytes from rfl, putCommand_putLine]
  · intro p s c calls hfit havail hbytes
    have hlen : p.bytes.length = p.body.length + 1 := by simp [ShortPutLine.bytes]
    rw [hlen] at hfit havail hbytes ⊢
    rw [worker_of_put_line p.nl_not_mem_body hfit havail hbytes p.isPut_bytes]
    obtain ⟨msg, h⟩ := putCommand_shortPutLine db parseTimestamp p
      { s with rpos := u32 (s.rpos + (p.body.length + 1)) } c calls
    exact ⟨msg, by rw [show p.body ++ [nl] = p.bytes from rfl, h]; rfl⟩

/-- The example of the header's documentation,
`put cpu.real 20141210T074343 3.12 host=machine1 region=NW`. -/
def headerPutLine : PutLine where
  sp0 := [space]
  metric := ascii "cpu.real"
  sp1 := [space]
  ts := ascii "20141210T074343"
  sp2 := [space]
  value := ascii "3.12"
  sp3 := [space]
  tags := ascii "host=machine1 region=NW"
  sp4 := []
  sp0_ne := by decide
  sp1_ne := by decide
  sp2_ne := by decide
  sp3_ne := by decide
  spaces := by decide
  metric_field := by decide
  ts_field := by decide
  value_field := by decide
  tags_ne := by decide
  tags_no_nl := by decide
  tags_head := by decide
  tags_last := by decide

/-- `put cpu.real 1`: two fields. -/
def shortPutLine : ShortPutLine where
  sp0 := [space]
  fields := [(ascii "cpu.real", [space]), (ascii "1", [])]
  sp0_ne := by decide
  sp0_spaces := by decide
  fields_lt := by decide
  fields_ok := by decide
  seps_ne := by decide

/-- The read buffer of a new parser after one chunk. -/
def freshState (chunk : List UInt8) : ReadBuffer := (ReadBuffer.create 0x1000).pull.push chunk

theorem bytes_freshState (chunk : List UInt8) :
    (freshState chunk).bytes (freshState chunk).rpos chunk.length = chunk :=
  ((ReadBuffer.create 0x1000).pull.bytes_push le_rfl).trans (List.take_length _)

theorem worker_putLine_fields_header :
    (worker Limits.default (DbSession.accepting 1) (fun _ => none)
        (freshState headerPutLine.bytes) () [] =
      (putSample (DbSession.accepting 1) (fun _ => none)
        { freshState headerPutLine.bytes with
          rpos := u32 ((freshState headerPutLine.bytes).rpos + headerPutLine.bytes.length) } () []
        (headerPutLine.metric ++ headerPutLine.sp1 ++ headerPutLine.tags)
        (headerPutLine.ts ++ headerPutLine.sp2 ++ headerPutLine.value ++ headerPutLine.sp3)
        headerPutLine.ts.length (headerPutLine.value ++ headerPutLine.sp3)
        headerPutLine.value.length).bind fun r =>
          worker Limits.default (DbSession.accepting 1) (fun _ => none)
            { freshState headerPutLine.bytes with
              rpos := u32 ((freshState headerPutLine.bytes).rpos +
                headerPutLine.bytes.length) }.consume r.1 r.2) ∧
    ∃ msg, worker Limits.default (DbSession.accepting 1) (fun _ => none)
        (freshState shortPutLine.bytes) () [] =
      .error ({ freshState shortPutLine.bytes with
        rpos := u32 ((freshState shortPutLine.bytes).rpos + shortPutLine.bytes.length) }.parserError
          msg) :=
  ⟨(worker_putLine_fields Limits.default (DbSession.accepting 1) (fun _ => none)).1 headerPutLine
      (freshState headerPutLine.bytes) () [] (by decide) (by decide) (bytes_freshState _),
    (worker_putLine_fields Limits.default (DbSession.accepting 1) (fun _ => none)).2 shortPutLine
      (freshState shortPutLine.bytes) () [] (by decide) (by decide) (bytes_freshState _)⟩

/-- A well-formed `put` line of 4213 bytes, longer than the line buffer of `Limits.default`
(4142 bytes): its metric is 4200 bytes `'a'`. -/
def longPutLine : PutLine where
  sp0 := [space]
  metric := List.replicate 4200 97
  sp1 := [space]
  ts := ascii "1"
  sp2 := [space]
  value := ascii "1"
  sp3 := [space]
  tags := ascii "a=b"
  sp4 := []
  sp0_ne := by decide
  sp1_ne := by decide
  sp2_ne := by decide
  sp3_ne := by decide
  spaces := by decide
  metric_field := ⟨List.ne_nil_of_mem (List.mem_replicate.mpr ⟨by decide, rfl⟩),
    fun c hc => by rw [List.eq_of_mem_replicate hc]; decide⟩
  ts_field := by decide
  value_field := by decide
  tags_ne := by decide
  tags_no_nl := by decide
  tags_head := by decide
  tags_last := by decide

theorem longPutLine_body_length : longPutLine.body.length = 4212 := by
  simp only [PutLine.body, List.length_append, List.length_replicate, longPutLine]; decide

/-- The read buffer after `longPutLine` arrived in two chunks: its first 4096 bytes (one
`BUFFER_SIZE` region), then the rest. -/
def longLineFirst : ReadBuffer := freshState (longPutLine.bytes.take 4096)

/-- See `longLineFirst`. -/
def longLineSecond : ReadBuffer := longLineFirst.pull.push (longPutLine.bytes.drop 4096)

/-- A well-formed `put` line longer than the line buffer never reaches the put branch: it is in
the read buffer whole, yet both `parse_next` calls return without a call to the session and
without an error. -/
theorem worker_long_putLine_unread :
    parseNext Limits.default (DbSession.accepting 1) (fun _ => none)
        (ReadBuffer.create 0x1000).pull () [] (longPutLine.bytes.take 4096) =
      .ok (none, longLineFirst, (), []) ∧
    parseNext Limits.default (DbSession.accepting 1) (fun _ => none) longLineFirst.pull () []
        (longPutLine.bytes.drop 4096) = .ok (none, longLineSecond, (), []) ∧
    longLineSecond.bytes longLineSecond.rpos longPutLine.bytes.length = longPutLine.bytes := by
  have hlen : longPutLine.bytes.length = 4213 := by
    rw [PutLine.bytes, List.length_append, longPutLine_body_length]; rfl
  have h1 : (longPutLine.bytes.take 4096).length = 4096 := by rw [List.length_take, hlen]; rfl
  have h2 : (longPutLine.bytes.drop 4096).length = 117 := by rw [List.length_drop, hlen]
  have hpull₀ : (ReadBuffer.create 0x1000).pull =
      { ReadBuffer.create 0x1000 with buffersAllocated := 1 } :=
    ReadBuffer.pull_of_room (by decide)
  have hr₁ : longLineFirst.rpos = 0 := by rw [longLineFirst, freshState, hpull₀]; rfl
  have hw₁ : longLineFirst.wpos = 4096 := by
    rw [longLineFirst, freshState, ReadBuffer.push_wpos, h1, hpull₀]; rfl
  have hroom₁ : ¬ sub32 (u32 longLineFirst.size) longLineFirst.wpos < longLineFirst.bufferSize := by
    rw [hw₁, longLineFirst, freshState, ReadBuffer.push_size, ReadBuffer.push_bufferSize, hpull₀]
    decide
  have hr₂ : longLineSecond.rpos = 0 := by
    rw [longLineSecond, ReadBuffer.push_rpos, ReadBuffer.pull_of_room hroom₁]; exact hr₁
  have hw₂ : longLineSecond.wpos = 4213 := by
    rw [longLineSecond, ReadBuffer.push_wpos, h2, ReadBuffer.wpos_pull_of_room hroom₁, hw₁]; rfl
  have hb₁ : longLineFirst.bytes 0 4096 = longPutLine.bytes.take 4096 := by
    have := (ReadBuffer.create 0x1000).pull.bytes_push (le_of_eq h1.symm)
    rwa [List.take_take, min_self, hpull₀] at this
  have hb₂ (m : ℕ) (hm : m ≤ 117) :
      longLineSecond.bytes 0 (4096 + m) = longPutLine.bytes.take (4096 + m) := by
    rw [longLineSecond, ReadBuffer.bytes_push_append _
      (by rw [ReadBuffer.wpos_pull_of_room hroom₁, hw₁]) (by rw [h2]; exact hm),
      ReadBuffer.bytes_pull_of_room hroom₁, hb₁, List.take_add]
  refine ⟨worker_of_no_nl (s := longLineFirst) ?_, worker_of_no_nl (s := longLineSecond) ?_, ?_⟩
  · rw [hr₁, hw₁, show min (u32 (lineBufferLen Limits.default)) (sub32 4096 0) = 4096 by decide, hb₁]
    exact longPutLine.nl_not_mem_take (by rw [longPutLine_body_length]; decide)
  · rw [hr₂, hw₂, show min (u32 (lineBufferLen Limits.default)) (sub32 4213 0) = 4096 + 46 by decide,
      hb₂ 46 (by decide)]
    exact longPutLine.nl_not_mem_take (by rw [longPutLine_body_length]; decide)
  · rw [hr₂, hlen, show 4213 = 4096 + 117 from rfl, hb₂ 117 le_rfl,
      List.take_of_length_le (by rw [hlen])]

/-- The header's example line: its ISO timestamp `20141210T074343` is read by `strtoull` as
`20141210` seconds, so the sample is written at `20141210 * 10^9` ns, whatever
`parse_timestamp` would make of the field. -/
theorem parseNext_iso_timestamp_as_seconds (parseTimestamp : List UInt8 → Option Timestamp) :
    ∃ s, parseNext Limits.default (DbSession.accepting 1) parseTimestamp
        (ReadBuffer.create 0x1000).pull () [] headerPutLine.bytes =
      .ok (none, s, (), [.seriesToParamId (ascii "cpu.real host=machine1 region=NW"),
        .write ⟨1, 20141210 * 10 ^ 9, ⟨.float, 0, .ofText (ascii "3.12"), []⟩⟩]) := by
  have hlen : headerPutLine.bytes.length = headerPutLine.body.length + 1 := List.length_append _ _
  have hbytes := bytes_freshState headerPutLine.bytes
  rw [hlen] at hbytes
  have hts : decodeTimestamp parseTimestamp
      (headerPutLine.ts ++ headerPutLine.sp2 ++ headerPutLine.value ++ headerPutLine.sp3)
      headerPutLine.ts.length = some (20141210 * 10 ^ 9) := by
    rw [@decodeTimestamp_of_digit parseTimestamp _ _ 50 (ascii "0141210T074343") (by decide)
      (by decide)]
    decide
  have hput : ∀ S : ReadBuffer, putSample (DbSession.accepting 1) parseTimestamp S () []
      (headerPutLine.metric ++ headerPutLine.sp1 ++ headerPutLine.tags)
      (headerPutLine.ts ++ headerPutLine.sp2 ++ headerPutLine.value ++ headerPutLine.sp3)
      headerPutLine.ts.length (headerPutLine.value ++ headerPutLine.sp3) headerPutLine.value.length =
        .ok ((), [.seriesToParamId (ascii "cpu.real host=machine1 region=NW"),
          .write ⟨1, 20141210 * 10 ^ 9, ⟨.float, 0, .ofText (ascii "3.12"), []⟩⟩]) := fun S => by
    have hval : CLib.strtod (headerPutLine.value ++ headerPutLine.sp3) =
        (.ofText (ascii "3.12"), headerPutLine.value.length) := by decide
    simp only [putSample, hts, hval, DbSession.accepting, ne_eq, not_true_eq_false, ↓reduceIte]
    rfl
  have hrun := @worker_of_put_line Unit Limits.default (DbSession.accepting 1) parseTimestamp
    (freshState headerPutLine.bytes) () [] headerPutLine.body headerPutLine.nl_not_mem_body
    (by decide) (by decide) hbytes headerPutLine.isPut_bytes
  rw [show headerPutLine.body ++ [nl] = headerPutLine.bytes from rfl, putCommand_putLine, hput]
    at hrun
  exact ⟨_, hrun.trans (worker_of_eof (by decide))⟩

end Worker

end OpenTSDB

end Stdb
