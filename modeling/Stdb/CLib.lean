import Stdb.Common

/-!
# The C library conversions the parsers call

`strtoull` and `strtod` (C11 7.22.1), as the OpenTSDB parser calls them, on the bytes of the
string up to its terminator, in the "C" locale.  `strtoull` gives the converted value, `strtod`
the number of bytes it consumed (`endptr - nptr`) with the value, which is kept as the text it
was converted from (`Double.ofText`).
-/

namespace Stdb

namespace CLib

/-- `isspace` in the "C" locale: `' '`, `'\t'`, `'\n'`, `'\v'`, `'\f'`, `'\r'`. -/
def isSpace (c : UInt8) : Bool := c = 32 ∨ (9 ≤ c ∧ c ≤ 13)

/-- `isdigit`. -/
def isDigit (c : UInt8) : Bool := 48 ≤ c ∧ c ≤ 57

/-- `isxdigit`. -/
def isXDigit (c : UInt8) : Bool := isDigit c ∨ (65 ≤ c ∧ c ≤ 70) ∨ (97 ≤ c ∧ c ≤ 102)

/-- A character of the `n-char-sequence` of `NAN(...)`: a digit, a letter or `'_'`. -/
def isNChar (c : UInt8) : Bool := isDigit c ∨ (65 ≤ c ∧ c ≤ 90) ∨ (97 ≤ c ∧ c ≤ 122) ∨ c = 95

/-- `tolower` in the "C" locale. -/
def toLower (c : UInt8) : UInt8 := if 65 ≤ c ∧ c ≤ 90 then c + 32 else c

/-- The value of a run of decimal digits. -/
def digitsValue (ds : List UInt8) : ℕ := ds.foldl (fun v d => 10 * v + (d.toNat - 48)) 0

/-- An optional sign: whether it is `'-'`, and the bytes after it. -/
def sign (s : List UInt8) : Bool × List UInt8 :=
  match s with
  | c :: rest => if c = 45 then (true, rest) else if c = 43 then (false, rest) else (false, s)
  | [] => (false, [])

/-- `strtoull(nptr, &endptr, 10)` (C11 7.22.1.4): white space is skipped, an optional sign read,
then the longest run of decimal digits.  Without digits the result is `0`; a value above
`ULLONG_MAX` gives `ULLONG_MAX`; after a minus sign the value is negated in
`unsigned long long`. -/
def strtoull (s : List UInt8) : ℕ :=
  let (neg, rest) := sign (s.dropWhile isSpace)
  let ds := rest.takeWhile isDigit
  if ds = [] then 0
  else if 2 ^ 64 ≤ digitsValue ds then 2 ^ 64 - 1
  else if neg then (2 ^ 64 - digitsValue ds) % 2 ^ 64
  else digitsValue ds

theorem le_foldl_digits (v : ℕ) (ds : List UInt8) :
    v ≤ ds.foldl (fun v d => 10 * v + (d.toNat - 48)) v := by
  induction ds generalizing v with
  | nil => exact le_rfl
  | cons d ds ih =>
    exact le_trans (Nat.le_add_right_of_le (Nat.le_mul_of_pos_left v (by decide))) (ih _)

theorem uint8_le_iff {a b : UInt8} : a ≤ b ↔ a.toNat ≤ b.toNat := Iff.rfl

/-- A string that starts with a digit `1`–`9` converts to a non-zero value. -/
theorem strtoull_pos {d : UInt8} {rest : List UInt8} (hd : 49 ≤ d.toNat ∧ d.toNat ≤ 57) :
    0 < strtoull (d :: rest) := by
  have hne : ∀ {k : UInt8}, k.toNat < 49 ∨ 57 < k.toNat → d ≠ k := fun hk h => by
    subst h; omega
  have hsp : isSpace d = false := decide_eq_false fun h => by
    rcases h with h | ⟨-, h⟩
    · exact hne (by decide) h
    · have := uint8_le_iff.mp h; have : (13 : UInt8).toNat = 13 := rfl; omega
  have hdig : isDigit d = true := decide_eq_true ⟨uint8_le_iff.mpr (by
    have : (48 : UInt8).toNat = 48 := rfl; omega), uint8_le_iff.mpr (by
    have : (57 : UInt8).toNat = 57 := rfl; omega)⟩
  have hsign : sign (d :: rest) = (false, d :: rest) := by
    simp [sign, hne (k := 45) (by decide), hne (k := 43) (by decide)]
  have hval : 0 < digitsValue (d :: rest.takeWhile isDigit) :=
    lt_of_lt_of_le (by omega) (le_foldl_digits (10 * 0 + (d.toNat - 48)) _)
  simp only [strtoull, List.dropWhile_cons, hsp, Bool.false_eq_true, ↓reduceIte, hsign,
    List.takeWhile_cons, hdig, reduceCtorEq]
  split_ifs <;> omega

/-- The length of `digits [. digits]` at the head of `s`, digits by `p`, with at least one
digit; `0` when there is none. -/
def mantissaLength (p : UInt8 → Bool) (s : List UInt8) : ℕ :=
  let int := (s.takeWhile p).length
  let rest := s.drop int
  if rest.head? = some 46 then
    let frac := ((rest.drop 1).takeWhile p).length
    if int + frac = 0 then 0 else int + 1 + frac
  else int

/-- The length of an exponent part at the head of `s`: one of `letters`, an optional sign and at
least one decimal digit; `0` when there is none. -/
def exponentLength (letters : List UInt8) (s : List UInt8) : ℕ :=
  match s with
  | c :: rest =>
    let r := (sign rest).2
    let ds := (r.takeWhile isDigit).length
    if c ∈ letters ∧ 0 < ds then 1 + (rest.length - r.length) + ds else 0
  | [] => 0

/-- Whether `s` starts with the lower-case word `w`, in either case. -/
def startsWithCaseless (s w : List UInt8) : Bool := (s.take w.length).map toLower = w

/-- The length of `(n-char-sequence)` after `NAN`; `0` when it is not there. -/
def nanSuffixLength (s : List UInt8) : ℕ :=
  match s with
  | c :: rest =>
    let n := (rest.takeWhile isNChar).length
    if c = 40 ∧ (rest.drop n).head? = some 41 then n + 2 else 0
  | [] => 0

/-- The length of the subject sequence of `strtod` after the sign: `INFINITY`, `INF`,
`NAN[(...)]`, a hexadecimal or a decimal floating constant; `0` when none is there. -/
def subjectLength (s : List UInt8) : ℕ :=
  if startsWithCaseless s (ascii "infinity") then 8
  else if startsWithCaseless s (ascii "inf") then 3
  else if startsWithCaseless s (ascii "nan") then 3 + nanSuffixLength (s.drop 3)
  else if startsWithCaseless s (ascii "0x") ∧ 0 < mantissaLength isXDigit (s.drop 2) then
    let m := 2 + mantissaLength isXDigit (s.drop 2)
    m + exponentLength (ascii "pP") (s.drop m)
  else
    let m := mantissaLength isDigit s
    if m = 0 then 0 else m + exponentLength (ascii "eE") (s.drop m)

/-- `strtod(nptr, &endptr)` (C11 7.22.1.3): the value and the number of bytes consumed, white
space and sign included; `0` bytes, and the value zero, when no conversion is performed. -/
def strtod (s : List UInt8) : Double × ℕ :=
  let body := (sign (s.dropWhile isSpace)).2
  let n := subjectLength body
  if n = 0 then (.ofU64 0, 0)
  else (.ofText (s.take (s.length - body.length + n)), s.length - body.length + n)

end CLib

end Stdb
