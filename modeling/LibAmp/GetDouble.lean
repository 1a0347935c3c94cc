import LibAmp.Lib.Fraction
import LibAmp.BoxHistory

/-!
# Reading a `double` (`amp_get_double`)

Three special strings, and otherwise an optional sign and digits with at most one point behind
the first of them. The arithmetic is exact: the accumulator and the fraction factor are rational
numbers.

## Main results

* `fractionLoop_eq`: the loop behind the point
* `integerLoop_eq_ok_iff`: the loop before it
* `double_format_iff`: what is accepted, and which number it stands for
-/

namespace LibAmp

open Decimal

/-- What a `double` holds when arithmetic is exact. -/
inductive DoubleValue where
  | nan
  | infinity (neg : Bool)
  | number (q : ℚ)
  deriving DecidableEq

/-- `strncmp`: the difference of the first bytes that differ among `n`, or up to a NUL. What lies
behind the listed bytes is not compared. -/
def strncmp : List UInt8 → List UInt8 → Nat → Int
  | x :: xs, y :: ys, n + 1 =>
    if x ≠ y then (x.toNat : Int) - y.toNat else if x = 0 then 0 else strncmp xs ys n
  | _, _, _ => 0

/-- The loop over the bytes after the sign, with the locals it changes. -/
def parseDouble (neg : Bool) : Bool → Bool → ℚ → ℚ → List UInt8 → Except AmpError ℚ
  | any, _, acc, _, [] => if any then .ok acc else .error ampDecodeError
  | any, gotDot, acc, fractionFactor, c :: s =>
    if IsDigit c then
      let c : ℚ := digit c
      if ¬ gotDot then
        if neg then parseDouble neg true gotDot (acc * 10 - c) fractionFactor s
        else parseDouble neg true gotDot (acc * 10 + c) fractionFactor s
      else
        if neg then
          parseDouble neg true gotDot (acc - c * fractionFactor) (fractionFactor / 10) s
        else parseDouble neg true gotDot (acc + c * fractionFactor) (fractionFactor / 10) s
    else if c = 46 ∧ ¬ gotDot ∧ any then parseDouble neg any true acc fractionFactor s
    else .error ampDecodeError

/-- The part of the function behind the special values, on at least one byte. -/
def decodeNumber (s : List UInt8) : Except AmpError ℚ :=
  match s with
  | [] => .error ampDecodeError
  | c :: rest =>
    parseDouble (c = 45) false false 0 (1 / 10) (if c = 43 ∨ c = 45 then rest else s)

/-- `amp_get_double`: what is returned, and what is in `*value` afterwards. -/
def ampGetDouble (box : AmpBox) (key : CString) (value : DoubleValue) : AmpError × DoubleValue :=
  match ampGetBuf box key with
  | .error ret => (ret, value)
  | .ok buf =>
    if buf.length < 1 then (ampDecodeError, value)
    else if buf.length = 3 ∧ strncmp buf (ascii "inf") 3 = 0 then (0, .infinity false)
    else if buf.length = 3 ∧ strncmp buf (ascii "nan") 3 = 0 then (0, .nan)
    else if buf.length = 4 ∧ strncmp buf (ascii "-inf") 4 = 0 then (0, .infinity true)
    else
      match decodeNumber buf with
      | .error ret => (ret, value)
      | .ok acc => (0, .number acc)

/-! ## The loop -/

/-- Behind the point: the digits count from the place the fraction factor has come to. -/
theorem fractionLoop_eq (neg : Bool) (acc factor : ℚ) (s : List UInt8) :
    parseDouble neg true true acc factor s =
      if AllDigits s then
        .ok (acc + signFactor neg * (10 * factor * value s / 10 ^ s.length))
      else .error ampDecodeError := by
  induction s generalizing acc factor with
  | nil => simp [parseDouble]
  | cons c s ih =>
    by_cases first : IsDigit c
    · have place : (value (c :: s) : ℚ) = digit c * 10 ^ s.length + value s := by
        rw [value, valueFrom_cons, valueFrom_eq]
        push_cast
        ring
      simp only [parseDouble, first, not_true_eq_false, ↓reduceIte, ih, allDigits_cons, true_and,
        List.length_cons, place]
      cases neg <;> simp only [signFactor, Bool.false_eq_true, ↓reduceIte] <;> congr 2 <;>
        field_simp <;> ring
    · simp [parseDouble, first]

/-- A digit before the point. -/
theorem parseDouble_digit {c : UInt8} (h : IsDigit c) (neg any : Bool) (n : Nat) (factor : ℚ)
    (s : List UInt8) :
    parseDouble neg any false (signFactor neg * n) factor (c :: s) =
      parseDouble neg true false (signFactor neg * ((10 * n + digit c : Nat) : ℚ)) factor s := by
  have next : signFactor neg * ((10 * n + digit c : Nat) : ℚ) =
      if neg then signFactor neg * n * 10 - digit c else signFactor neg * n * 10 + digit c := by
    cases neg <;> simp only [signFactor, Bool.false_eq_true, ↓reduceIte] <;> push_cast <;> ring
  rw [next]
  cases neg <;> simp [parseDouble, h]

/-- The point, and every byte that has no place before it. -/
theorem parseDouble_other {c : UInt8} (h : ¬ IsDigit c) (neg any : Bool) (acc factor : ℚ)
    (s : List UInt8) :
    parseDouble neg any false acc factor (c :: s) =
      if c = 46 ∧ any then parseDouble neg any true acc factor s
      else .error ampDecodeError := by
  simp [parseDouble, h]

/-- Before the point, after at least one digit. -/
theorem integerLoop_eq_ok_iff (neg : Bool) (n : Nat) (s : List UInt8) (q : ℚ) :
    parseDouble neg true false (signFactor neg * n) (1 / 10) s = .ok q ↔
      ∃ u, DenotesAfter n s u ∧ q = signFactor neg * u := by
  induction s generalizing n with
  | nil => simp [parseDouble, denotesAfter_nil, eq_comm]
  | cons c s ih =>
    by_cases first : IsDigit c
    · have notPoint : c ≠ 46 := by
        rintro rfl
        exact not_isDigit_point first
      rw [parseDouble_digit first, ih]
      simp [denotesAfter_cons, first, notPoint]
    · rw [parseDouble_other first]
      by_cases point : c = 46
      · subst point
        by_cases decimals : AllDigits s
        · have sum : signFactor neg * n +
              signFactor neg * (10 * (1 / 10) * value s / 10 ^ s.length) =
                signFactor neg * (n + value s / 10 ^ s.length) := by
            ring
          rw [if_pos ⟨rfl, rfl⟩, fractionLoop_eq, if_pos decimals, sum]
          simp only [Except.ok.injEq, denotesAfter_cons, first, false_and, false_or, true_and,
            decimals, exists_eq_left]
          exact eq_comm
        · simp [fractionLoop_eq, denotesAfter_cons, first, decimals]
      · simp [denotesAfter_cons, first, point]

/-- The loop from its beginning, before any digit. -/
theorem parseDouble_eq_ok_iff (neg : Bool) (s : List UInt8) (q : ℚ) :
    parseDouble neg false false 0 (1 / 10) s = .ok q ↔
      ∃ u, DenotesUnsigned s u ∧ q = signFactor neg * u := by
  cases s with
  | nil => simp [parseDouble, not_denotesUnsigned_nil]
  | cons c s =>
    by_cases first : IsDigit c
    · have start : (0 : ℚ) = signFactor neg * ((0 : Nat) : ℚ) := by simp
      rw [start, parseDouble_digit first, integerLoop_eq_ok_iff]
      simp [denotesUnsigned_cons, first]
    · rw [parseDouble_other first]
      simp [denotesUnsigned_cons, first]

/-- There is one error the loop reports. -/
theorem parseDouble_error {neg any gotDot : Bool} {acc factor : ℚ} {s : List UInt8}
    {err : AmpError} (h : parseDouble neg any gotDot acc factor s = .error err) :
    err = ampDecodeError := by
  induction s generalizing any gotDot acc factor with
  | nil =>
    unfold parseDouble at h
    split at h
    · cases h
    · exact (Except.error.inj h).symm
  | cons c s ih =>
    unfold parseDouble at h
    dsimp only at h
    split at h
    · split at h
      · split at h <;> exact ih h
      · split at h <;> exact ih h
    · split at h
      · exact ih h
      · exact (Except.error.inj h).symm

/-! ## The number -/

theorem decodeNumber_eq_ok_iff (s : List UInt8) (q : ℚ) :
    decodeNumber s = .ok q ↔ DenotesRat s q := by
  cases s with
  | nil =>
    have none : ¬ DenotesRat [] q := by
      intro h
      generalize hs : ([] : List UInt8) = s at h
      cases h with
      | plain h => exact not_denotesUnsigned_nil _ (hs ▸ h)
      | plus | minus => cases hs
    simp [decodeNumber, none]
  | cons c rest =>
    rw [decodeNumber, parseDouble_eq_ok_iff, denotesRat_cons_iff]

theorem decodeNumber_error {s : List UInt8} {err : AmpError} (h : decodeNumber s = .error err) :
    err = ampDecodeError := by
  cases s with
  | nil => exact (Except.error.inj h).symm
  | cons c rest => exact parseDouble_error h

/-! ## The whole function -/

/-- The strings `amp_get_double` is for, and what they stand for. -/
inductive DenotesDouble : List UInt8 → DoubleValue → Prop where
  | infinity : DenotesDouble (ascii "inf") (.infinity false)
  | minusInfinity : DenotesDouble (ascii "-inf") (.infinity true)
  | nan : DenotesDouble (ascii "nan") .nan
  | number {s : List UInt8} {q : ℚ} (h : DenotesRat s q) : DenotesDouble s (.number q)

/-- Against a string of its length without a NUL, `strncmp` tells whether the bytes are equal. -/
theorem strncmp_eq_zero {s t : List UInt8} {n : Nat} (hs : s.length = n) (ht : t.length = n)
    (nulFree : 0 ∉ t) : strncmp s t n = 0 ↔ s = t := by
  induction s generalizing t n with
  | nil =>
    subst hs
    obtain rfl := List.length_eq_zero_iff.1 ht
    simp [strncmp]
  | cons x s ih =>
    subst hs
    cases t with
    | nil => cases ht
    | cons y t =>
      obtain ⟨hy, tailFree⟩ : 0 ≠ y ∧ 0 ∉ t := by simpa using nulFree
      by_cases same : x = y
      · subst same
        have rest := ih rfl (by simpa using ht) tailFree
        simpa [strncmp, Ne.symm hy] using rest
      · have differ : x.toNat ≠ y.toNat := fun h => same (UInt8.toNat_inj.1 h)
        simp only [List.length_cons, strncmp, ne_eq, same, not_false_eq_true, ↓reduceIte,
          List.cons.injEq, false_and, iff_false]
        omega

theorem strncmp_literal {s t : List UInt8} {n : Nat} (ht : t.length = n) (nulFree : 0 ∉ t) :
    s.length = n ∧ strncmp s t n = 0 ↔ s = t := by
  constructor
  · rintro ⟨hs, compared⟩
    exact (strncmp_eq_zero hs ht nulFree).1 compared
  · rintro rfl
    exact ⟨ht, (strncmp_eq_zero ht ht nulFree).2 rfl⟩

/-- None of the three special strings is a number. -/
theorem decodeNumber_special {s : List UInt8}
    (h : s = ascii "inf" ∨ s = ascii "nan" ∨ s = ascii "-inf") :
    decodeNumber s = .error ampDecodeError := by
  rcases h with rfl | rfl | rfl <;> rfl

/-- What the function does with the bytes it finds, special string by special string. -/
theorem ampGetDouble_eq {box : AmpBox} {key : CString} {buf : List UInt8}
    (found : ampGetBuf box key = .ok buf) (value : DoubleValue) :
    ampGetDouble box key value =
      if buf = ascii "inf" then (0, .infinity false)
      else if buf = ascii "nan" then (0, .nan)
      else if buf = ascii "-inf" then (0, .infinity true)
      else
        match decodeNumber buf with
        | .error _ => (ampDecodeError, value)
        | .ok acc => (0, .number acc) := by
  have inf := strncmp_literal (s := buf) (t := ascii "inf") (n := 3) rfl (by decide)
  have nan := strncmp_literal (s := buf) (t := ascii "nan") (n := 3) rfl (by decide)
  have minusInf := strncmp_literal (s := buf) (t := ascii "-inf") (n := 4) rfl (by decide)
  simp only [ampGetDouble, found, inf, nan, minusInf]
  by_cases empty : buf = []
  · subst empty
    rfl
  · have pos := List.length_pos_of_ne_nil empty
    have notShort : ¬ buf.length < 1 := by omega
    rw [if_neg notShort]
    cases decoded : decodeNumber buf with
    | error ret => rw [decodeNumber_error decoded]
    | ok acc => rfl

/-- The strings and what they stand for, as the function tells them apart. -/
theorem denotesDouble_iff (buf : List UInt8) (x : DoubleValue) :
    DenotesDouble buf x ↔
      buf = ascii "inf" ∧ x = .infinity false ∨ buf = ascii "nan" ∧ x = .nan ∨
        buf = ascii "-inf" ∧ x = .infinity true ∨
          ∃ q, x = .number q ∧ decodeNumber buf = .ok q := by
  constructor
  · intro h
    cases h with
    | infinity => exact .inl ⟨rfl, rfl⟩
    | nan => exact .inr (.inl ⟨rfl, rfl⟩)
    | minusInfinity => exact .inr (.inr (.inl ⟨rfl, rfl⟩))
    | number h => exact .inr (.inr (.inr ⟨_, rfl, (decodeNumber_eq_ok_iff buf _).2 h⟩))
  · rintro (⟨rfl, rfl⟩ | ⟨rfl, rfl⟩ | ⟨rfl, rfl⟩ | ⟨q, rfl, decoded⟩)
    · exact .infinity
    · exact .nan
    · exact .minusInfinity
    · exact .number ((decodeNumber_eq_ok_iff buf q).1 decoded)

/-- A call either succeeds with the one thing the bytes stand for, or fails and they stand for
nothing. -/
theorem ampGetDouble_cases {box : AmpBox} {key : CString} {buf : List UInt8}
    (found : ampGetBuf box key = .ok buf) (value : DoubleValue) :
    (∃ x, ampGetDouble box key value = (0, x) ∧ ∀ y, DenotesDouble buf y ↔ x = y) ∨
      ampGetDouble box key value = (ampDecodeError, value) ∧ ∀ y, ¬ DenotesDouble buf y := by
  rw [ampGetDouble_eq found]
  simp only [denotesDouble_iff]
  by_cases special : buf = ascii "inf" ∨ buf = ascii "nan" ∨ buf = ascii "-inf"
  · have decoded := decodeNumber_special special
    have infNan : ascii "inf" ≠ ascii "nan" := by decide
    have infMinus : ascii "inf" ≠ ascii "-inf" := by decide
    have nanMinus : ascii "nan" ≠ ascii "-inf" := by decide
    rcases special with rfl | rfl | rfl
    · refine .inl ⟨.infinity false, rfl, fun y => ?_⟩
      simp [decoded, infNan, infMinus, eq_comm]
    · refine .inl ⟨.nan, rfl, fun y => ?_⟩
      simp [decoded, infNan.symm, nanMinus, eq_comm]
    · refine .inl ⟨.infinity true, rfl, fun y => ?_⟩
      simp [decoded, infMinus.symm, nanMinus.symm, eq_comm]
  · obtain ⟨inf, nan, minusInf⟩ : buf ≠ ascii "inf" ∧ buf ≠ ascii "nan" ∧ buf ≠ ascii "-inf" := by
      simpa using special
    simp only [inf, nan, minusInf, ↓reduceIte, false_and, false_or]
    cases decodeNumber buf with
    | error ret => exact .inr ⟨rfl, by simp⟩
    | ok q => exact .inl ⟨.number q, rfl, by simp [eq_comm]⟩

/-- Whatever bytes are stored under the key: `amp_get_double` succeeds exactly on the three
special strings and the decimal numerals, with what they stand for, and otherwise returns
`AMP_DECODE_ERROR` and leaves `*value` alone. -/
theorem double_format_iff {box : AmpBox} {key : CString} {buf : List UInt8}
    (found : ampGetBuf box key = .ok buf) (value : DoubleValue) :
    (∀ x, ampGetDouble box key value = (0, x) ↔ DenotesDouble buf x) ∧
      ((ampGetDouble box key value).1 = 0 ↔ ∃ x, DenotesDouble buf x) ∧
      ((¬ ∃ x, DenotesDouble buf x) → ampGetDouble box key value = (ampDecodeError, value)) := by
  have code : ampDecodeError ≠ 0 := by decide
  rcases ampGetDouble_cases found value with ⟨x, get, only⟩ | ⟨get, none⟩
  · refine ⟨fun y => ?_, ?_, fun h => absurd ⟨x, (only x).2 rfl⟩ h⟩
    · rw [get, only, Prod.mk.injEq, eq_self, true_and]
    · rw [get]
      exact iff_of_true rfl ⟨x, (only x).2 rfl⟩
  · refine ⟨fun y => ?_, ?_, fun _ => get⟩
    · rw [get]
      exact iff_of_false (fun h => code (congrArg Prod.fst h)) (none y)
    · rw [get]
      exact iff_of_false code fun ⟨y, h⟩ => none y h

/-- The string `-3.14` is read as -157/50. -/
theorem double_format_iff_sample :
    ampGetDouble (AmpBox.single Key.ask (ascii "-3.14")) Key.ask .nan =
      (0, .number (-(157 / 50))) := by
  have digits : DenotesUnsigned (ascii "3.14") (157 / 50) := by
    have point := DenotesUnsigned.point (ascii "3") (ascii "14") (by decide) (by decide +kernel)
      (by decide +kernel)
    have number : fraction (ascii "3") (ascii "14") = 157 / 50 := by
      have ds : value (ascii "3") = 3 := rfl
      have fs : value (ascii "14") = 14 := rfl
      have length : (ascii "14").length = 2 := rfl
      rw [fraction, ds, fs, length]
      norm_num
    rwa [number] at point
  have found : ampGetBuf (AmpBox.single Key.ask (ascii "-3.14")) Key.ask =
      .ok (ascii "-3.14") := rfl
  exact ((double_format_iff found .nan).1 _).2 (.number (.minus digits))

end LibAmp
