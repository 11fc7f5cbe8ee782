import Stdb.ReadBufferRefinement

/-!
# Bounds of `ReadBuffer` along a protocol run

`pull` rotates the unconsumed bytes to the front of `buffer_` or doubles it, so that
`BUFFER_SIZE` bytes are writable after `wpos_`.  Doubling happens only when the rotation would not
free enough, that is when the backlog `wpos_ - cons_` and a region's worth of room exceed the
size; so the size stays within twice the largest backlog plus `BUFFER_SIZE`, or the initial
`N_BUF * BUFFER_SIZE` bytes.

* `size_pull_le`: one `pull` grows the buffer to at most twice the backlog plus `BUFFER_SIZE`;
* `run_bounded`: along a run whose backlog never passes `B`, and while the bound is below
  `2^32`, the buffer refines its stream, at most one region is out, and the size stays within
  the bound;
* `readBuffer_bounded`: so from the constructor, with `N_BUF * BUFFER_SIZE` and twice the
  backlog plus `BUFFER_SIZE` below `2^32`, every state keeps its cursors in order inside the
  buffer and every `u32` computation of `pull`, `read` and `read_line` is exact;
* `readBuffer_cursors_wrap`: without the bound on the backlog the invariant fails for the
  parsers' own `RDBUF_SIZE`: after `2^32` bytes pushed and none consumed, `wpos_` wraps behind
  `rpos_`.
-/

namespace Stdb

namespace ReadBuffer

variable {s s' : ReadBuffer} {op : Op} {o : Output}

/-- `wpos_ - cons_`: the bytes pushed and not yet consumed. -/
def backlog (s : ReadBuffer) : ℕ := s.wpos - s.cons

/-- The largest backlog of the states a run passes through, its first state included. -/
def maxBacklog (s : ReadBuffer) : List Op → ℕ
  | [] => s.backlog
  | op :: ops => match s.step op with
    | none => s.backlog
    | some (s', _) => max s.backlog (maxBacklog s' ops)

theorem backlog_le_maxBacklog (s : ReadBuffer) (ops : List Op) : s.backlog ≤ maxBacklog s ops := by
  cases ops with
  | nil => exact le_rfl
  | cons op ops =>
    simp only [maxBacklog]
    split
    · exact le_rfl
    · exact le_max_left _ _

theorem maxBacklog_cons (h : s.step op = some (s', o)) (ops : List Op) :
    maxBacklog s (op :: ops) = max s.backlog (maxBacklog s' ops) := by
  simp only [maxBacklog, h]

/-- The bound on `buffer_.size()` for a backlog that never passed `B`. -/
def sizeBound (bufferSize B : ℕ) : ℕ := max (nBuf * bufferSize) (2 * (B + bufferSize))

/-! ### One operation -/

/-- The reads move `rpos_` and nothing else. -/
theorem readLine_eq_rpos (s : ReadBuffer) (q : ℕ) :
    (s.readLine q).2 = { s with rpos := (s.readLine q).2.rpos } := by
  simp only [ReadBuffer.readLine, lineResult]
  split <;> rfl

/-- What an operation can do to the size, `BUFFER_SIZE` and the allocation counter: a `pull`
with no region out, a `push` of at most `BUFFER_SIZE` bytes into the region out, or nothing. -/
theorem step_cases (hstep : s.step op = some (s', o)) :
    (op = .pull ∧ s.buffersAllocated = 0 ∧ s' = s.pull) ∨
      (∃ c : List UInt8, op = .push c ∧ s.buffersAllocated = 1 ∧ s' = s.push c) ∨
      (s'.size = s.size ∧ s'.bufferSize = s.bufferSize ∧ s'.buffersAllocated = s.buffersAllocated) := by
  cases op <;>
    simp only [step, ReadBuffer.get, Option.ite_none_right_eq_some, Option.some.injEq,
      Prod.mk.injEq] at hstep
  case pull => exact .inl ⟨rfl, hstep.1, hstep.2.1.symm⟩
  case push c => exact .inr (.inl ⟨c, rfl, hstep.1.1, hstep.2.1.symm⟩)
  case get =>
    split_ifs at hstep <;> obtain ⟨rfl, -⟩ := Prod.mk.inj hstep <;> exact .inr (.inr ⟨rfl, rfl, rfl⟩)
  case readLine q =>
    obtain ⟨-, rfl, -⟩ := hstep
    rw [readLine_eq_rpos]
    exact .inr (.inr ⟨rfl, rfl, rfl⟩)
  case pick | isEof => obtain ⟨rfl, -⟩ := hstep; exact .inr (.inr ⟨rfl, rfl, rfl⟩)
  all_goals obtain ⟨-, rfl, -⟩ := hstep; exact .inr (.inr ⟨rfl, rfl, rfl⟩)

theorem step_bufferSize (hstep : s.step op = some (s', o)) : s'.bufferSize = s.bufferSize := by
  rcases step_cases hstep with ⟨-, -, rfl⟩ | ⟨c, -, -, rfl⟩ | ⟨-, h, -⟩
  · simp only [pull]
    split_ifs <;> rfl
  · rfl
  · exact h

/-- At most one region is out: `pull` needs none out and `push` needs one. -/
theorem step_allocated (hstep : s.step op = some (s', o))
    (h : s.buffersAllocated = 0 ∨ s.buffersAllocated = 1) :
    s'.buffersAllocated = 0 ∨ s'.buffersAllocated = 1 := by
  rcases step_cases hstep with ⟨-, h₀, rfl⟩ | ⟨c, -, h₁, rfl⟩ | ⟨-, -, h'⟩
  · exact .inr (by rw [pull_buffersAllocated, h₀]; rfl)
  · exact .inl (by rw [push_buffersAllocated, h₁]; rfl)
  · rwa [h']

/-- `pull` grows the buffer only by doubling a size that the backlog and `BUFFER_SIZE` bytes
exceed: the new size is at most twice the backlog plus `BUFFER_SIZE`. -/
theorem size_pull_le (hs : s.size < 2 ^ 32) (hw : s.wpos ≤ s.size) (hc : s.cons ≤ s.wpos) :
    s.pull.size ≤ max s.size (2 * (s.backlog + s.bufferSize)) := by
  rw [pull_eq hs hw hc]
  split_ifs with h₁ h₂
  · exact le_max_left _ _
  · simp only [grow, backlog]; omega
  · exact le_max_left _ _

/-! ### Runs -/

/-- Along a run whose backlog never passes `B`, as long as the size bound for `B` is below
`2^32`, the buffer keeps refining its stream, at most one region is out, and the size stays
within the bound. -/
theorem run_bounded {a : LogicalStream} {B : ℕ} {ops : List Op} {outs : List Output}
    (h : Refines s a) (halloc : s.buffersAllocated = 0 ∨ s.buffersAllocated = 1)
    (hsize : s.size ≤ sizeBound s.bufferSize B) (hlt : sizeBound s.bufferSize B < 2 ^ 32)
    (hB : maxBacklog s ops ≤ B) (hrun : s.run ops = some (s', outs)) :
    Refines s' (a.run ops).1 ∧ (s'.buffersAllocated = 0 ∨ s'.buffersAllocated = 1) ∧
      s'.size ≤ sizeBound s'.bufferSize B ∧ s'.bufferSize = s.bufferSize := by
  induction ops generalizing s a outs with
  | nil => cases hrun; exact ⟨h, halloc, hsize, rfl⟩
  | cons op ops ih =>
    simp only [run] at hrun
    split at hrun
    · cases hrun
    rename_i s₁ o hstep
    obtain ⟨r, hr, hr'⟩ := Option.map_eq_some'.mp hrun
    cases hr'
    rw [maxBacklog_cons hstep] at hB
    have hbs := step_bufferSize hstep
    -- the step stays within the bound: only a `pull` can grow the buffer
    have hsize₁ : s₁.size ≤ sizeBound s₁.bufferSize B := by
      rw [hbs]
      rcases step_cases hstep with ⟨-, -, rfl⟩ | ⟨c, -, -, rfl⟩ | ⟨h', -, -⟩
      · have := size_pull_le (by omega) h.wpos_le_size (h.cons_le_rpos.trans h.rpos_le_wpos)
        have := backlog_le_maxBacklog s (op :: ops)
        unfold sizeBound at hsize ⊢
        omega
      · exact hsize
      · rwa [h']
    have h₁ := step_refines h hstep (by rw [hbs] at hsize₁; omega)
    obtain ⟨h₂, h₃, h₄, h₅⟩ := ih h₁.1 (step_allocated hstep halloc) hsize₁ (by rwa [hbs])
      (by omega) hr
    exact ⟨h₂, h₃, h₄, h₅.trans hbs⟩

/-! ### From the constructor -/

/-- The invariant of a read buffer whose backlog never passed `B`: the cursors are in order
inside the buffer, at most one region is out, a region out has `BUFFER_SIZE` writable bytes
after `wpos_`, and the size is within the bound. -/
structure Bounded (B : ℕ) (s : ReadBuffer) : Prop where
  cons_le_rpos : s.cons ≤ s.rpos
  rpos_le_wpos : s.rpos ≤ s.wpos
  wpos_le_size : s.wpos ≤ s.size
  allocated : s.buffersAllocated = 0 ∨ s.buffersAllocated = 1
  room : s.buffersAllocated = 1 → s.wpos + s.bufferSize ≤ s.size
  size_le : s.size ≤ sizeBound s.bufferSize B

/-- Every `u32` computation of `pull`, `read` and `read_line` on `s` is exact: the cast of the
size, the free space `buffer_.size() - wpos_` and `cons_` plus it, the rotation's moves of
`wpos_` and `rpos_`, the available bytes `wpos_ - rpos_`, and `rpos_` moved over available
bytes. -/
def NoWrap (s : ReadBuffer) : Prop :=
  u32 s.size = s.size ∧ sub32 (u32 s.size) s.wpos = s.size - s.wpos ∧
    u32 (s.cons + sub32 (u32 s.size) s.wpos) = s.cons + (s.size - s.wpos) ∧
    sub32 s.wpos s.cons = s.wpos - s.cons ∧ sub32 s.rpos s.cons = s.rpos - s.cons ∧
    sub32 s.wpos s.rpos = s.wpos - s.rpos ∧ ∀ n ≤ s.wpos - s.rpos, u32 (s.rpos + n) = s.rpos + n

theorem Bounded.noWrap {B : ℕ} (h : Bounded B s) (hs : s.size < 2 ^ 32) : NoWrap s := by
  have := h.cons_le_rpos; have := h.rpos_le_wpos; have := h.wpos_le_size
  have hsz : sub32 (u32 s.size) s.wpos = s.size - s.wpos := by
    rw [u32_of_lt hs, sub32_of_le h.wpos_le_size hs]
  refine ⟨u32_of_lt hs, hsz, by rw [hsz, u32_of_lt (by omega)], sub32_of_le (by omega) (by omega),
    sub32_of_le (by omega) (by omega), sub32_of_le (by omega) (by omega),
    fun n hn => u32_of_lt (by omega)⟩

/-- Every state a protocol run reaches from the constructor, as long as `N_BUF * BUFFER_SIZE` is
below `2^32` and the largest backlog `B` so far below `2^31 - BUFFER_SIZE`, has
`cons_ ≤ rpos_ ≤ wpos_ ≤ buffer_.size()`, at most one region out, `BUFFER_SIZE` writable bytes
after `wpos_` when a pulled region is out, and a size of at most
`max(N_BUF * BUFFER_SIZE, 2 * (B + BUFFER_SIZE))`; and no `u32` computation of `pull`, `read` or
`read_line` wraps. -/
theorem readBuffer_bounded (bufferSize : ℕ) (hbuf : nBuf * bufferSize < 2 ^ 32) (ops : List Op)
    (hB : maxBacklog (create bufferSize) ops < 2 ^ 31 - bufferSize) {s : ReadBuffer}
    {outs : List Output} (hrun : (create bufferSize).run ops = some (s, outs)) :
    Bounded (maxBacklog (create bufferSize) ops) s ∧ NoWrap s := by
  have hlt : sizeBound bufferSize (maxBacklog (create bufferSize) ops) < 2 ^ 32 :=
    max_lt hbuf (by omega)
  obtain ⟨h, halloc, hsize, hbs⟩ := run_bounded (refines_create bufferSize) (.inl rfl)
    (by show bufferSize * nBuf ≤ sizeBound bufferSize _; unfold sizeBound nBuf; omega) hlt le_rfl hrun
  have hbs' : s.bufferSize = bufferSize := hbs
  have hs : s.size < 2 ^ 32 := by rw [hbs'] at hsize; omega
  have hb : Bounded (maxBacklog (create bufferSize) ops) s :=
    ⟨h.cons_le_rpos, h.rpos_le_wpos, h.wpos_le_size, halloc, h.room, hsize⟩
  exact ⟨hb, hb.noWrap hs⟩

theorem readBuffer_bounded_rotating_run :
    nBuf * 4 < 2 ^ 32 ∧ maxBacklog (create 4) rotatingRun < 2 ^ 31 - 4 ∧
      Bounded (maxBacklog (create 4) rotatingRun)
        ((create 4).run rotatingRun |>.getD (create 4, [])).1 ∧
      NoWrap ((create 4).run rotatingRun |>.getD (create 4, [])).1 :=
  ⟨by decide, by decide, readBuffer_bounded 4 (by decide) rotatingRun (by decide) rfl⟩

/-! ### Past `2^32` pushed bytes -/

/-- `n` rounds of the server's protocol: pull a region, push `chunk` into it. -/
def pushRounds (chunk : List UInt8) : ℕ → List Op
  | 0 => []
  | n + 1 => .pull :: .push chunk :: pushRounds chunk n

/-- With nothing consumed, `pull` never rotates: it moves no cursor. -/
theorem pull_of_cons_zero (h : s.cons = 0) :
    s.pull.cons = 0 ∧ s.pull.rpos = s.rpos ∧ s.pull.wpos = s.wpos ∧
      s.pull.bufferSize = s.bufferSize := by
  have hsz := u32_lt (u32 s.size + 2 ^ 32 - s.wpos)
  simp only [pull]
  split_ifs with h₁ h₂
  · rw [h, Nat.zero_add, sub32, u32_of_lt hsz] at h₂
    exact absurd h₂ (by unfold sub32 at h₁; omega)
  all_goals exact ⟨h, rfl, rfl, rfl⟩

/-- Rounds of pulls and pushes with nothing consumed only move `wpos_`, modulo `2^32`. -/
theorem run_pushRounds {chunk : List UInt8} (n : ℕ) (hc : s.cons = 0) (ha : s.buffersAllocated = 0)
    (hlen : chunk.length ≤ s.bufferSize) (hw : s.wpos < 2 ^ 32) :
    ∃ s' outs, s.run (pushRounds chunk n) = some (s', outs) ∧ s'.cons = 0 ∧ s'.rpos = s.rpos ∧
      s'.wpos = u32 (s.wpos + n * chunk.length) := by
  induction n generalizing s with
  | zero => exact ⟨s, [], rfl, hc, rfl, by rw [Nat.zero_mul, Nat.add_zero, u32_of_lt hw]⟩
  | succ n ih =>
    obtain ⟨hc₁, hr₁, hw₁, hb₁⟩ := pull_of_cons_zero hc
    have h₀ : s.step .pull = some (s.pull, .unit) := if_pos ha
    have h₁ : s.pull.step (.push chunk) = some (s.pull.push chunk, .unit) :=
      if_pos ⟨by rw [pull_buffersAllocated, ha]; rfl, hb₁ ▸ hlen⟩
    obtain ⟨s', outs, hrun, hc', hr', hw'⟩ := ih (s := s.pull.push chunk) hc₁
      (by rw [push_buffersAllocated, pull_buffersAllocated, ha]; rfl) (by rwa [push_bufferSize, hb₁])
      (by rw [push_wpos]; exact u32_lt _)
    refine ⟨s', .unit :: .unit :: outs, ?_, hc', by rw [hr', push_rpos, hr₁], ?_⟩
    · rw [pushRounds, run_cons_of_step _ h₀, run_cons_of_step _ h₁, hrun]
      rfl
    · rw [hw', push_wpos, hw₁, u32, u32, Nat.mod_add_mod, Nat.succ_mul, Nat.add_assoc,
        Nat.add_comm chunk.length]
      rfl

/-- The invariant fails without a bound on the backlog, for the parsers' own
`RDBUF_SIZE = 0x1000`: a run that reads one byte and then pushes `2^32` bytes in all, consuming
none, leaves `wpos_` wrapped to `0`, behind `rpos_ = 1`. -/
theorem readBuffer_cursors_wrap :
    ¬ ∀ (ops : List Op) (s : ReadBuffer) (outs : List Output),
      (create 0x1000).run ops = some (s, outs) → s.cons ≤ s.rpos ∧ s.rpos ≤ s.wpos ∧ s.wpos ≤ s.size := by
  intro H
  obtain ⟨c, hc⟩ : ∃ c : List UInt8, c.length = 0x1000 := ⟨_, List.length_replicate _ 0⟩
  -- the first round, then one byte read
  obtain ⟨hc₁, hr₁, hw₁, hb₁⟩ := pull_of_cons_zero (s := create 0x1000) rfl
  set X := (create 0x1000).pull.push c
  have h₀ : (create 0x1000).step .pull = some ((create 0x1000).pull, .unit) := rfl
  have h₁ : (create 0x1000).pull.step (.push c) = some (X, .unit) :=
    if_pos ⟨rfl, by rw [hb₁, hc]; rfl⟩
  have hXr : X.rpos = 0 := hr₁
  have hXw : X.wpos = 0x1000 := by rw [push_wpos, hw₁, hc]; rfl
  have h₂ : X.step .get = some ({ X with rpos := u32 (X.rpos + 1) }, .byte (.ok (X.buffer X.rpos))) := by
    simp only [step, ReadBuffer.get, hXr, hXw, if_neg (by decide : (0 : ℕ) ≠ 0x1000)]
  -- then `2^32 - 0x1000` more bytes, in `2^20 - 1` rounds
  obtain ⟨s, outs, hrun, -, hr, hw⟩ := run_pushRounds (s := { X with rpos := u32 (X.rpos + 1) })
    (2 ^ 20 - 1) hc₁ (by show (create 0x1000).pull.buffersAllocated - 1 = 0; rfl)
    (by show c.length ≤ (create 0x1000).pull.bufferSize; rw [hb₁, hc]; rfl) (by show X.wpos < 2 ^ 32; rw [hXw]; decide)
  have hrun' : (create 0x1000).run (.pull :: .push c :: .get :: pushRounds c (2 ^ 20 - 1)) =
      some (s, .unit :: .unit :: .byte (.ok (X.buffer X.rpos)) :: outs) := by
    rw [run_cons_of_step _ h₀, run_cons_of_step _ h₁, run_cons_of_step _ h₂, hrun]
    rfl
  have h := (H _ _ _ hrun').2.1
  rw [hr, hw] at h
  change u32 (X.rpos + 1) ≤ u32 (X.wpos + (2 ^ 20 - 1) * c.length) at h
  rw [hXr, hXw, hc] at h
  exact absurd h (by decide)

end ReadBuffer

end Stdb
