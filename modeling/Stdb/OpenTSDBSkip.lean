import Stdb.OpenTSDB

/-!
# `skip_element` at the byte level

`OpenTSDB.skipElement` describes `skip_element(buffer, len)` by the suffix of the line it returns.
Here the two loops of the source run on memory, a pointer and a quota, as the source writes them:
`skipWord` steps over the element, `skipSpace` over the separators after it, and
`skipElementAt` returns the pointer, the quota left and the number of separators.

* `skipWord_spec` and `skipSpace_spec` say where each loop stops and what it stepped over;
* `skipElementAt_spec` gathers the contract the `put` branch relies on: only the `len` bytes
  from `buffer` are read, the pointer and the quota account for each other, the element is free
  of separators and followed by exactly the `ntrailing` separators counted, and a pointer that
  stops before the end has at least one separator behind it;
* `skipElement_slice`: on the bytes of the window, `skipElement` returns what the loops leave,
  so the suffix view the worker uses is the pointer view.
-/

namespace Stdb

namespace OpenTSDB

open ReadBuffer

/-- The first loop of `skip_element`: from `p` with `quota` bytes left, step over bytes that are
neither `' '` nor `'\n'`.  The pointer and the quota where it stopped. -/
def skipWord (mem : ℕ → UInt8) : ℕ → ℕ → ℕ × ℕ
  | p, 0 => (p, 0)
  | p, quota + 1 => if isSep (mem p) then (p, quota + 1) else skipWord mem (p + 1) quota

/-- The second loop of `skip_element`: step over `' '` and `'\n'`, counting them in
`ntrailing`. -/
def skipSpace (mem : ℕ → UInt8) : ℕ → ℕ → ℕ → ℕ × ℕ × ℕ
  | p, 0, ntrailing => (p, 0, ntrailing)
  | p, quota + 1, ntrailing =>
    if isSep (mem p) then skipSpace mem (p + 1) quota (ntrailing + 1) else (p, quota + 1, ntrailing)

/-- `skip_element(buffer, len)` on memory `mem`: the new pointer, the adjusted length and the
number of trailing separators. -/
def skipElementAt (mem : ℕ → UInt8) (buffer len : ℕ) : ℕ × ℕ × ℕ :=
  let (p, quota) := skipWord mem buffer len
  skipSpace mem p quota 0

section Loops

variable (mem : ℕ → UInt8)

/-- The first loop stops after the bytes it stepped over, all of them part of the element, at
the end of the quota or at a separator. -/
theorem skipWord_spec {p quota p' q : ℕ} (h : skipWord mem p quota = (p', q)) :
    p' + q = p + quota ∧ p ≤ p' ∧ (∀ i, p ≤ i → i < p' → isSep (mem i) = false) ∧
      (q = 0 ∨ isSep (mem p') = true) := by
  induction quota generalizing p with
  | zero =>
    cases h
    exact ⟨rfl, le_rfl, fun i hi hi' => absurd hi' (by omega), .inl rfl⟩
  | succ quota ih =>
    cases hs : isSep (mem p) <;> simp only [skipWord, hs, Bool.false_eq_true, if_false,
      if_true] at h
    · obtain ⟨h₁, h₂, h₃, h₄⟩ := ih h
      refine ⟨by omega, by omega, fun i hi hi' => ?_, h₄⟩
      rcases Nat.eq_or_lt_of_le hi with rfl | hi
      · exact hs
      · exact h₃ i hi hi'
    · cases h
      exact ⟨rfl, le_rfl, fun i hi hi' => absurd hi' (by omega), .inr hs⟩

/-- The second loop counts exactly the separators it stepped over, and stops at the end of the
quota or at a byte that is not one. -/
theorem skipSpace_spec {p quota n p' q n' : ℕ} (h : skipSpace mem p quota n = (p', q, n')) :
    p' + q = p + quota ∧ p ≤ p' ∧ n' = n + (p' - p) ∧
      (∀ i, p ≤ i → i < p' → isSep (mem i) = true) ∧ (q = 0 ∨ isSep (mem p') = false) := by
  induction quota generalizing p n with
  | zero =>
    cases h
    exact ⟨rfl, le_rfl, by omega, fun i hi hi' => absurd hi' (by omega), .inl rfl⟩
  | succ quota ih =>
    cases hs : isSep (mem p) <;> simp only [skipSpace, hs, Bool.false_eq_true, if_false,
      if_true] at h
    · cases h
      exact ⟨rfl, le_rfl, by omega, fun i hi hi' => absurd hi' (by omega), .inr hs⟩
    · obtain ⟨h₁, h₂, h₃, h₄, h₅⟩ := ih h
      refine ⟨by omega, by omega, by omega, fun i hi hi' => ?_, h₅⟩
      rcases Nat.eq_or_lt_of_le hi with rfl | hi
      · exact hs
      · exact h₄ i hi hi'

variable {mem} {mem' : ℕ → UInt8}

/-- The first loop reads only the `quota` bytes from `p`. -/
theorem skipWord_congr {p quota : ℕ} (h : ∀ i, p ≤ i → i < p + quota → mem' i = mem i) :
    skipWord mem' p quota = skipWord mem p quota := by
  induction quota generalizing p with
  | zero => rfl
  | succ quota ih =>
    simp only [skipWord, h p le_rfl (by omega)]
    rw [ih fun i hi hi' => h i (by omega) (by omega)]

/-- The second loop reads only the `quota` bytes from `p`. -/
theorem skipSpace_congr {p quota n : ℕ} (h : ∀ i, p ≤ i → i < p + quota → mem' i = mem i) :
    skipSpace mem' p quota n = skipSpace mem p quota n := by
  induction quota generalizing p n with
  | zero => rfl
  | succ quota ih =>
    simp only [skipSpace, h p le_rfl (by omega)]
    rw [ih fun i hi hi' => h i (by omega) (by omega)]

end Loops

/-- `skip_element(b, len)` reads only `[b, b + len)` and returns `(p, q, n)` with
`p = b + (len - q)`; the bytes `[b, p - n)` hold no `' '` or `'\n'`, the `n` bytes `[p - n, p)`
are all separators, `p` is the end of the window or a byte that is neither, and a pointer that
stops before the end has `n ≥ 1`. -/
theorem skipElementAt_spec (mem : ℕ → UInt8) (buffer len : ℕ) :
    (∀ mem' : ℕ → UInt8, (∀ i, buffer ≤ i → i < buffer + len → mem' i = mem i) →
      skipElementAt mem' buffer len = skipElementAt mem buffer len) ∧
    ∃ p q n, skipElementAt mem buffer len = (p, q, n) ∧ q ≤ len ∧ p = buffer + (len - q) ∧
      buffer + n ≤ p ∧ (∀ i, buffer ≤ i → i < p - n → isSep (mem i) = false) ∧
      (∀ i, p - n ≤ i → i < p → isSep (mem i) = true) ∧
      (p = buffer + len ∨ isSep (mem p) = false) ∧ (p ≠ buffer + len → 1 ≤ n) := by
  rcases hw : skipWord mem buffer len with ⟨p₁, q₁⟩
  obtain ⟨w₁, w₂, w₃, w₄⟩ := skipWord_spec mem hw
  have he : skipElementAt mem buffer len = skipSpace mem p₁ q₁ 0 := by simp only [skipElementAt, hw]
  rcases hs : skipSpace mem p₁ q₁ 0 with ⟨p, q, n⟩
  obtain ⟨s₁, s₂, s₃, s₄, s₅⟩ := skipSpace_spec mem hs
  refine ⟨fun mem' h => ?_, p, q, n, he.trans hs, by omega, by omega, by omega,
    fun i hi hi' => w₃ i hi (by omega), fun i hi hi' => s₄ i (by omega) hi', ?_, fun hne => ?_⟩
  · -- both loops stay inside the window
    rw [he, skipElementAt, skipWord_congr h, hw]
    exact skipSpace_congr fun i hi hi' => h i (by omega) (by omega)
  · exact s₅.imp_left fun hq => by omega
  · -- the element ended at a separator, which the second loop stepped over
    by_contra hn
    have hsep := w₄.resolve_left (by omega)
    rcases s₅ with h | h
    · omega
    · rw [show p = p₁ by omega, hsep] at h
      cases h

/-! ### The suffix view -/

theorem slice_succ (f : ℕ → UInt8) (a n : ℕ) : slice f a (n + 1) = f a :: slice f (a + 1) n := by
  rw [Nat.add_comm, slice_add]
  rfl

/-- On the window, the first loop drops the element. -/
theorem dropWhile_slice_skipWord (mem : ℕ → UInt8) (p quota : ℕ) :
    (slice mem p quota).dropWhile (fun c => !isSep c) =
      slice mem (skipWord mem p quota).1 (skipWord mem p quota).2 := by
  induction quota generalizing p with
  | zero => rfl
  | succ quota ih =>
    rw [slice_succ, List.dropWhile_cons]
    by_cases h : isSep (mem p)
    · simp only [h, Bool.not_true, skipWord, if_true, slice_succ]
      rfl
    · simp only [h, Bool.not_false, if_true, skipWord, Bool.false_eq_true, if_false, ih]

/-- On the window, the second loop drops the separators and counts them. -/
theorem slice_skipSpace (mem : ℕ → UInt8) (p quota n : ℕ) :
    (slice mem p quota).dropWhile isSep =
        slice mem (skipSpace mem p quota n).1 (skipSpace mem p quota n).2.1 ∧
      n + ((slice mem p quota).takeWhile isSep).length = (skipSpace mem p quota n).2.2 := by
  induction quota generalizing p n with
  | zero => exact ⟨rfl, rfl⟩
  | succ quota ih =>
    rw [slice_succ, List.dropWhile_cons, List.takeWhile_cons]
    by_cases h : isSep (mem p)
    · obtain ⟨h₁, h₂⟩ := ih (p + 1) (n + 1)
      simp only [h, if_true, skipSpace, h₁, ← h₂, List.length_cons, true_and]
      omega
    · simp only [h, Bool.false_eq_true, if_false, skipSpace, slice_succ, List.length_nil,
        Nat.add_zero, and_self]

/-- `skipElement` on the `len` bytes from `buffer` returns the bytes from the pointer
`skip_element` returns to the end of the window, and the number of trailing separators. -/
theorem skipElement_slice (mem : ℕ → UInt8) (buffer len : ℕ) :
    skipElement (slice mem buffer len) =
      (slice mem (skipElementAt mem buffer len).1 (skipElementAt mem buffer len).2.1,
        (skipElementAt mem buffer len).2.2) := by
  obtain ⟨h₁, h₂⟩ := slice_skipSpace mem (skipWord mem buffer len).1 (skipWord mem buffer len).2 0
  simp only [skipElement, dropWhile_slice_skipWord, h₁, Nat.zero_add] at h₂ ⊢
  rw [h₂]
  rfl

end OpenTSDB

end Stdb
