import LibAmp.Lib.Decimal
import LibAmp.Runtime

/-!
# Reading a `long long` (`buftoll.c`)

`buftoll` reads an optional sign and decimal digits, and refuses a number before the accumulator
could leave the range of a `long long`.

## Main results

* `buftoll_eq_ok_iff`, `buftoll_eq_outOfRange_iff` — what is accepted, and what is out of range.
* `buftollChecked_eq` — no operation on the accumulator overflows.
* `buftollChecked_grammar` — the three outcomes, decided by the grammar alone.
-/

namespace LibAmp

open Decimal

def llongMin : Int := -9223372036854775808
def llongMax : Int := 9223372036854775807

/-- `c - '0'`, when `isdigit(c)`. -/
def digitValue (c : UInt8) : Option Int :=
  if 48 ≤ c.toNat ∧ c.toNat ≤ 57 then some (c.toNat - 48) else none

/-- The loop of `buftoll` over the bytes after the sign. -/
def parseDigits (neg : Bool) (cutoff cutlim : Int) :
    Bool → Int → List UInt8 → Except AmpError Int
  | any, acc, [] => if any then .ok acc else .error ampDecodeError
  | _, acc, c :: s =>
    match digitValue c with
    | none => .error ampDecodeError
    | some c =>
      if neg then
        if acc < cutoff ∨ (acc = cutoff ∧ c > cutlim) then .error ampOutOfRange
        else parseDigits neg cutoff cutlim true (acc * 10 - c) s
      else
        if acc > cutoff ∨ (acc = cutoff ∧ c > cutlim) then .error ampOutOfRange
        else parseDigits neg cutoff cutlim true (acc * 10 + c) s

/-- Division and remainder truncate toward zero, so `LLONG_MIN % 10` is negative and its sign
is changed afterwards. -/
def buftoll (s : List UInt8) : Except AmpError Int :=
  match s with
  | [] => .error ampDecodeError
  | c :: rest =>
    let neg := c = 45
    let s := if c = 43 ∨ c = 45 then rest else s
    let limit := if neg then llongMin else llongMax
    let cutlim := if neg then -(limit.tmod 10) else limit.tmod 10
    parseDigits neg (limit.tdiv 10) cutlim false 0 s

abbrev InLongLong (v : Int) : Prop := llongMin ≤ v ∧ v ≤ llongMax

/-- The result of an operation on `long long` operands: a signed overflow has none. -/
def longLong (v : Int) : Option Int := if InLongLong v then some v else none

/-- `parseDigits` with every operation on the accumulator checked, returning the value of the
function and the one left in `*err`. -/
def parseDigitsChecked (neg : Bool) (cutoff cutlim : Int) :
    Bool → Int → List UInt8 → Option (Int × AmpError)
  | any, acc, [] => some (if any then (acc, 0) else (0, ampDecodeError))
  | _, acc, c :: s =>
    match digitValue c with
    | none => some (0, ampDecodeError)
    | some c =>
      if neg then
        if acc < cutoff ∨ (acc = cutoff ∧ c > cutlim) then some (0, ampOutOfRange)
        else (longLong (acc * 10)).bind fun acc => (longLong (acc - c)).bind fun acc =>
          parseDigitsChecked neg cutoff cutlim true acc s
      else
        if acc > cutoff ∨ (acc = cutoff ∧ c > cutlim) then some (0, ampOutOfRange)
        else (longLong (acc * 10)).bind fun acc => (longLong (acc + c)).bind fun acc =>
          parseDigitsChecked neg cutoff cutlim true acc s

def buftollChecked (s : List UInt8) : Option (Int × AmpError) :=
  match s with
  | [] => some (0, ampDecodeError)
  | c :: rest =>
    let neg := c = 45
    let s := if c = 43 ∨ c = 45 then rest else s
    let limit := if neg then llongMin else llongMax
    let cutlim := if neg then -(limit.tmod 10) else limit.tmod 10
    parseDigitsChecked neg (limit.tdiv 10) cutlim false 0 s

/-! ## A turn of the loop -/

/-- The largest magnitude a `long long` of the sign has. -/
def magnitude (neg : Bool) : Nat := if neg then 9223372036854775808 else 9223372036854775807

theorem signed_inLongLong {neg : Bool} {n : Nat} :
    InLongLong (signed neg n) ↔ n ≤ magnitude neg := by
  cases neg <;> simp only [InLongLong, signed, magnitude, llongMin, llongMax] <;> grind

/-- The loop with the limits that go with the sign, after digits that stand for `acc`. -/
def digitsLoop (neg any : Bool) (acc : Nat) (s : List UInt8) : Except AmpError Int :=
  parseDigits neg (if neg then -922337203685477580 else 922337203685477580) (if neg then 8 else 7)
    any (signed neg acc) s

theorem buftoll_cons (c : UInt8) (rest : List UInt8) :
    buftoll (c :: rest) =
      digitsLoop (c = 45) false 0 (if c = 43 ∨ c = 45 then rest else c :: rest) := by
  by_cases neg : c = 45
  · simp [buftoll, digitsLoop, neg, llongMin, signed]
  · simp [buftoll, digitsLoop, neg, llongMax, signed]

theorem digitValue_of_digit {c : UInt8} (h : IsDigit c) : digitValue c = some (digit c : Int) := by
  have shown : digitValue c = some ((c.toNat : Int) - 48) := if_pos h
  rw [shown, digit, Nat.cast_sub h.1]
  rfl

theorem digitValue_of_other {c : UInt8} (h : ¬ IsDigit c) : digitValue c = none :=
  if_neg h

theorem digitsLoop_nil (neg any : Bool) (acc : Nat) :
    digitsLoop neg any acc [] =
      if any then .ok (signed neg acc) else .error ampDecodeError := rfl

theorem digitsLoop_other {c : UInt8} (h : ¬ IsDigit c) (neg any : Bool) (acc : Nat)
    (s : List UInt8) : digitsLoop neg any acc (c :: s) = .error ampDecodeError := by
  rw [digitsLoop, parseDigits, digitValue_of_other h]

theorem digitsLoop_digit {c : UInt8} (h : IsDigit c) (neg any : Bool) (acc : Nat)
    (s : List UInt8) :
    digitsLoop neg any acc (c :: s) =
      if magnitude neg < 10 * acc + digit c then .error ampOutOfRange
      else digitsLoop neg true (10 * acc + digit c) s := by
  have small : digit c < 10 := digit_lt h
  rw [digitsLoop, parseDigits, digitValue_of_digit h]
  cases neg with
  | true =>
    simp only [signed, magnitude, digitsLoop, ↓reduceIte]
    grind
  | false =>
    simp only [signed, magnitude, digitsLoop, Bool.false_eq_true, ↓reduceIte]
    grind

/-! ## What the loop accepts -/

theorem digitsLoop_eq_ok_iff {neg any : Bool} {acc : Nat} {s : List UInt8} {v : Int}
    (fits : acc ≤ magnitude neg) :
    digitsLoop neg any acc s = .ok v ↔
      (any ∨ s ≠ []) ∧ AllDigits s ∧ valueFrom acc s ≤ magnitude neg ∧
      v = signed neg (valueFrom acc s) := by
  induction s generalizing any acc with
  | nil =>
    rw [digitsLoop_nil]
    cases any <;> simp [fits, eq_comm]
  | cons c s ih =>
    by_cases digits : IsDigit c
    · rw [digitsLoop_digit digits]
      have grow := le_valueFrom (10 * acc + digit c) s
      split
      · next large =>
        simp only [valueFrom_cons, reduceCtorEq, false_iff]
        omega
      · next small =>
        rw [ih (by omega)]
        simp [digits]
    · rw [digitsLoop_other digits]
      simp [digits]

/-- A number that is too large is refused at its first digit too many, whatever follows. -/
theorem digitsLoop_eq_outOfRange_iff {neg any : Bool} {acc : Nat} {s : List UInt8}
    (fits : acc ≤ magnitude neg) :
    digitsLoop neg any acc s = .error ampOutOfRange ↔
      ∃ p, p <+: s ∧ AllDigits p ∧ magnitude neg < valueFrom acc p := by
  have nil_fits {acc : Nat} {p : List UInt8} (fits : acc ≤ magnitude neg)
      (large : magnitude neg < valueFrom acc p) : p ≠ [] := by
    rintro rfl
    exact absurd large (not_lt.2 fits)
  induction s generalizing any acc with
  | nil =>
    rw [digitsLoop_nil]
    constructor
    · intro h
      cases any <;> cases h
    · rintro ⟨p, hp, -, large⟩
      exact absurd (List.prefix_nil.1 hp) (nil_fits fits large)
  | cons c s ih =>
    by_cases digits : IsDigit c
    · rw [digitsLoop_digit digits]
      split
      · next large =>
        exact iff_of_true rfl ⟨[c], ⟨s, rfl⟩, by simpa using digits, by simpa using large⟩
      · next small =>
        refine (ih (not_lt.1 small)).trans ?_
        constructor
        · rintro ⟨p, hp, allDigits, large⟩
          refine ⟨c :: p, List.prefix_cons_inj c |>.2 hp, ?_, by simpa using large⟩
          simpa [digits] using allDigits
        · rintro ⟨p, hp, allDigits, large⟩
          rcases List.prefix_cons_iff.1 hp with rfl | ⟨p, rfl, front⟩
          · exact absurd rfl (nil_fits fits large)
          · exact ⟨p, front, (allDigits_cons.1 allDigits).2, by simpa using large⟩
    · rw [digitsLoop_other digits]
      refine iff_of_false (by decide) ?_
      rintro ⟨p, hp, allDigits, large⟩
      rcases List.prefix_cons_iff.1 hp with rfl | ⟨p, rfl, -⟩
      · exact absurd rfl (nil_fits fits large)
      · exact digits (allDigits_cons.1 allDigits).1

theorem digitsLoop_error {neg any : Bool} {acc : Nat} {s : List UInt8} {err : AmpError}
    (h : digitsLoop neg any acc s = .error err) : err = ampDecodeError ∨ err = ampOutOfRange := by
  induction s generalizing any acc with
  | nil =>
    rw [digitsLoop_nil] at h
    cases any <;> grind
  | cons c s ih =>
    by_cases digits : IsDigit c
    · rw [digitsLoop_digit digits] at h
      split at h
      · grind
      · exact ih h
    · rw [digitsLoop_other digits] at h
      grind

/-! ## What `buftoll` accepts -/

theorem buftoll_eq_ok_iff {s : List UInt8} {v : Int} :
    buftoll s = .ok v ↔ Denotes s v ∧ InLongLong v := by
  rcases s with _ | ⟨c, rest⟩
  · simp [buftoll, not_denotes_nil]
  · rw [buftoll_cons, digitsLoop_eq_ok_iff (Nat.zero_le _), denotes_cons_iff]
    constructor
    · rintro ⟨nonempty, digits, small, rfl⟩
      exact ⟨⟨by simpa using nonempty, digits, rfl⟩, signed_inLongLong.2 small⟩
    · rintro ⟨⟨nonempty, digits, rfl⟩, range⟩
      exact ⟨.inr nonempty, digits, signed_inLongLong.1 range, rfl⟩

/-- An initial segment of the bytes is a numeral too large, or too small, for a `long long`. -/
def Overruns (s : List UInt8) : Prop := ∃ p v, p <+: s ∧ Denotes p v ∧ ¬ InLongLong v

theorem buftoll_eq_outOfRange_iff {s : List UInt8} :
    buftoll s = .error ampOutOfRange ↔ Overruns s := by
  rcases s with _ | ⟨c, rest⟩
  · refine iff_of_false (by decide) ?_
    rintro ⟨p, v, hp, denotes, -⟩
    rw [List.prefix_nil.1 hp] at denotes
    exact not_denotes_nil v denotes
  · rw [buftoll_cons, digitsLoop_eq_outOfRange_iff (Nat.zero_le _)]
    constructor
    · rintro ⟨p, hp, digits, large⟩
      have nonempty : p ≠ [] := by
        rintro rfl
        exact Nat.not_lt_zero _ large
      by_cases sign : c = 43 ∨ c = 45
      · simp only [sign, ↓reduceIte] at hp
        refine ⟨c :: p, signed (c = 45) (value p), (List.prefix_cons_inj c).2 hp, ?_, ?_⟩
        · exact (denotes_cons_iff c p _).2 (by simp [sign, nonempty, digits])
        · exact mt signed_inLongLong.1 (not_le.2 large)
      · simp only [sign, ↓reduceIte] at hp
        rcases List.prefix_cons_iff.1 hp with rfl | ⟨p, rfl, -⟩
        · exact absurd rfl nonempty
        refine ⟨c :: p, signed (c = 45) (value (c :: p)), hp, ?_, ?_⟩
        · exact (denotes_cons_iff c p _).2 (by simpa [sign] using digits)
        · exact mt signed_inLongLong.1 (not_le.2 large)
    · rintro ⟨p, v, hp, denotes, large⟩
      rcases List.prefix_cons_iff.1 hp with rfl | ⟨p, rfl, front⟩
      · exact absurd denotes (not_denotes_nil v)
      obtain ⟨-, digits, rfl⟩ := (denotes_cons_iff c p v).1 denotes
      refine ⟨_, ?_, digits, not_le.1 (mt signed_inLongLong.2 large)⟩
      split
      · exact front
      · exact hp

theorem buftoll_error_cases {s : List UInt8} {err : AmpError} (h : buftoll s = .error err) :
    err = ampDecodeError ∨ err = ampOutOfRange := by
  rcases s with _ | ⟨c, rest⟩
  · cases h
    exact .inl rfl
  · rw [buftoll_cons] at h
    exact digitsLoop_error h

/-! ## The accumulator stays in range -/

/-- The value returned, and the one left in `*err`. -/
def returned : Except AmpError Int → Int × AmpError
  | .ok v => (v, 0)
  | .error err => (0, err)

theorem longLong_of_inLongLong {v : Int} (h : InLongLong v) : longLong v = some v :=
  if_pos h

theorem longLong_times_minus {acc d : Nat} (fits : 10 * acc + d ≤ 9223372036854775808) :
    longLong (-(acc : Int) * 10) = some (-(acc : Int) * 10) ∧
      longLong (-(acc : Int) * 10 - d) = some (-((10 * acc + d : Nat) : Int)) := by
  have sum : -(acc : Int) * 10 - d = -((10 * acc + d : Nat) : Int) := by
    push_cast
    ring
  rw [sum]
  constructor <;> apply longLong_of_inLongLong <;> unfold InLongLong llongMin llongMax <;> omega

theorem longLong_times_plus {acc d : Nat} (fits : 10 * acc + d ≤ 9223372036854775807) :
    longLong ((acc : Int) * 10) = some ((acc : Int) * 10) ∧
      longLong ((acc : Int) * 10 + d) = some ((10 * acc + d : Nat) : Int) := by
  have sum : (acc : Int) * 10 + d = ((10 * acc + d : Nat) : Int) := by
    push_cast
    ring
  rw [sum]
  constructor <;> apply longLong_of_inLongLong <;> unfold InLongLong llongMin llongMax <;> omega

theorem parseDigitsChecked_eq (neg any : Bool) (acc : Nat) (s : List UInt8) :
    parseDigitsChecked neg (if neg then -922337203685477580 else 922337203685477580)
        (if neg then 8 else 7) any (signed neg acc) s =
      some (returned (digitsLoop neg any acc s)) := by
  induction s generalizing any acc with
  | nil => cases any <;> rfl
  | cons c s ih =>
    by_cases digits : IsDigit c
    · have small : digit c < 10 := digit_lt digits
      have next := ih true (10 * acc + digit c)
      rw [digitsLoop_digit digits, parseDigitsChecked, digitValue_of_digit digits]
      cases neg with
      | true =>
        simp only [signed, magnitude, ↓reduceIte] at next ⊢
        by_cases large : 9223372036854775808 < 10 * acc + digit c
        · rw [if_pos large, if_pos (by omega)]
          rfl
        · obtain ⟨times, minus⟩ := longLong_times_minus (not_lt.1 large)
          rw [if_neg large, if_neg (by omega), times, Option.bind_some, minus, Option.bind_some]
          exact next
      | false =>
        simp only [signed, magnitude, Bool.false_eq_true, ↓reduceIte] at next ⊢
        by_cases large : 9223372036854775807 < 10 * acc + digit c
        · rw [if_pos large, if_pos (by omega)]
          rfl
        · obtain ⟨times, plus⟩ := longLong_times_plus (not_lt.1 large)
          rw [if_neg large, if_neg (by omega), times, Option.bind_some, plus, Option.bind_some]
          exact next
    · rw [digitsLoop_other digits, parseDigitsChecked, digitValue_of_other digits]
      rfl

/-- Checking the operations changes nothing: none of them overflows. -/
theorem buftollChecked_eq (s : List UInt8) : buftollChecked s = some (returned (buftoll s)) := by
  rcases s with _ | ⟨c, rest⟩
  · rfl
  · rw [buftoll_cons, ← parseDigitsChecked_eq]
    by_cases neg : c = 45
    · simp [buftollChecked, neg, llongMin, signed]
    · simp [buftollChecked, neg, llongMax, signed]

/-- `buftoll` reads exactly the numerals whose value is a `long long`, and reports the others
with `0`: out of range as soon as the bytes read so far denote too large a number, otherwise as
a decoding error. No operation on the accumulator overflows on any input. -/
theorem buftollChecked_grammar (s : List UInt8) :
    (∀ v, buftollChecked s = some (v, 0) ↔ Denotes s v ∧ InLongLong v) ∧
      (buftollChecked s = some (0, ampOutOfRange) ↔ Overruns s) ∧
      (buftollChecked s = some (0, ampDecodeError) ↔
        ¬ (∃ v, Denotes s v ∧ InLongLong v) ∧ ¬ Overruns s) := by
  have accepted (v : Int) : buftoll s = .ok v ↔ Denotes s v ∧ InLongLong v := buftoll_eq_ok_iff
  have refused : buftoll s = .error ampOutOfRange ↔ Overruns s := buftoll_eq_outOfRange_iff
  simp only [← accepted, ← refused, buftollChecked_eq]
  rcases result : buftoll s with err | w
  · rcases buftoll_error_cases result with rfl | rfl <;> simp [returned] <;> decide
  · have decode : ampDecodeError ≠ 0 := by decide
    have range : ampOutOfRange ≠ 0 := by decide
    simp [returned, decode.symm, range.symm]

/-! ## A value within a range -/

def buftollRange (s : List UInt8) (minval maxval : Int) : Except AmpError Int :=
  match buftoll s with
  | .error err => .error err
  | .ok value => if value < minval ∨ value > maxval then .error ampOutOfRange else .ok value

theorem buftollRange_eq_ok_iff {s : List UInt8} {minval maxval v : Int} (hmin : llongMin ≤ minval)
    (hmax : maxval ≤ llongMax) :
    buftollRange s minval maxval = .ok v ↔ Denotes s v ∧ minval ≤ v ∧ v ≤ maxval := by
  constructor
  · intro h
    rw [buftollRange] at h
    split at h
    · cases h
    next value read =>
    split at h
    · cases h
    next inside =>
    obtain rfl : value = v := by injection h
    exact ⟨(buftoll_eq_ok_iff.1 read).1, by omega, by omega⟩
  · rintro ⟨denotes, low, high⟩
    have read : buftoll s = .ok v := buftoll_eq_ok_iff.2 ⟨denotes, by omega, by omega⟩
    rw [buftollRange, read]
    exact if_neg (by omega)

end LibAmp
