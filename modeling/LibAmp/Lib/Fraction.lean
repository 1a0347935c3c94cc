import Mathlib.Data.Rat.Floor
import Mathlib.Tactic.FieldSimp
import LibAmp.Lib.Decimal

/-!
# Decimal fractions

What digits with a decimal point among them denote, and a natural number of units printed with a
fixed number of decimals, after rounding half to even.

## Main definitions

* `Decimal.DenotesUnsigned`, `Decimal.DenotesRat`: a numeral with a point, and with a sign too
* `Decimal.DenotesAfter`: the rest of a numeral whose first digits have been read
* `Decimal.fixed`: a number printed with a fixed number of decimals
* `Decimal.roundHalfEven`: a quotient rounded to the nearest natural number
-/

namespace Decimal

/-! ## Numerals with a point -/

/-- The number that the digits `ds` before and `fs` behind the point stand for. -/
def fraction (ds fs : List UInt8) : ℚ := value ds + value fs / 10 ^ fs.length

/-- One or more digits, optionally with a point and zero or more digits behind them. -/
inductive DenotesUnsigned : List UInt8 → ℚ → Prop where
  | whole (ds : List UInt8) (nonempty : ds ≠ []) (digits : AllDigits ds) :
    DenotesUnsigned ds (value ds)
  | point (ds fs : List UInt8) (nonempty : ds ≠ []) (digits : AllDigits ds)
    (decimals : AllDigits fs) : DenotesUnsigned (ds ++ 46 :: fs) (fraction ds fs)

/-- The factor a sign stands for. -/
def signFactor (neg : Bool) : ℚ := if neg then -1 else 1

/-- The same with an optional sign in front. -/
inductive DenotesRat : List UInt8 → ℚ → Prop where
  | plain {s : List UInt8} {q : ℚ} (h : DenotesUnsigned s q) : DenotesRat s q
  | plus {s : List UInt8} {q : ℚ} (h : DenotesUnsigned s q) : DenotesRat (43 :: s) q
  | minus {s : List UInt8} {q : ℚ} (h : DenotesUnsigned s q) : DenotesRat (45 :: s) (-q)

/-- An unsigned numeral begins with a digit. -/
theorem DenotesUnsigned.head {s : List UInt8} {q : ℚ} (h : DenotesUnsigned s q) :
    ∃ c t, s = c :: t ∧ IsDigit c := by
  have first {ds : List UInt8} (nonempty : ds ≠ []) (digits : AllDigits ds) (t : List UInt8) :
      ∃ c u, ds ++ t = c :: u ∧ IsDigit c := by
    obtain ⟨c, ds, rfl⟩ := List.exists_cons_of_ne_nil nonempty
    exact ⟨c, ds ++ t, rfl, (allDigits_cons.1 digits).1⟩
  cases h with
  | whole _ nonempty digits => simpa using first nonempty digits []
  | point _ fs nonempty digits _ => exact first nonempty digits (46 :: fs)

/-- The first byte decides how the rest is read. -/
theorem denotesRat_cons_iff (c : UInt8) (rest : List UInt8) (q : ℚ) :
    DenotesRat (c :: rest) q ↔
      ∃ u, DenotesUnsigned (if c = 43 ∨ c = 45 then rest else c :: rest) u ∧
        q = signFactor (c = 45) * u := by
  constructor
  · intro h
    cases h with
    | plain h =>
      obtain ⟨c', t, same, range⟩ := h.head
      obtain ⟨rfl, rfl⟩ := List.cons.inj same
      have notSign : c ≠ 43 ∧ c ≠ 45 := by
        constructor <;> rintro rfl <;> exact absurd range (by decide)
      exact ⟨q, by simpa [notSign] using h, by simp [signFactor, notSign]⟩
    | plus h => exact ⟨q, by simpa using h, by simp [signFactor]⟩
    | @minus _ u h => exact ⟨u, by simpa using h, by simp [signFactor]⟩
  · rintro ⟨u, h, rfl⟩
    by_cases plus : c = 43
    · subst plus
      simpa [signFactor] using DenotesRat.plus (by simpa using h)
    · by_cases minus : c = 45
      · subst minus
        simpa [signFactor] using DenotesRat.minus (by simpa using h)
      · simpa [signFactor, plus, minus] using DenotesRat.plain (by simpa [plus, minus] using h)

/-! ## Reading on -/

/-- Digits that are read behind others move those to the left. -/
theorem valueFrom_eq (acc : Nat) (s : List UInt8) :
    valueFrom acc s = acc * 10 ^ s.length + value s := by
  induction s generalizing acc with
  | nil => simp
  | cons c s ih =>
    rw [valueFrom_cons, value, valueFrom_cons, ih, ih (10 * 0 + digit c), List.length_cons]
    ring

/-- What an unsigned numeral stands for whose first digits stand for `n` and whose other bytes
are `s`. -/
inductive DenotesAfter (n : Nat) : List UInt8 → ℚ → Prop where
  | whole (ds : List UInt8) (digits : AllDigits ds) : DenotesAfter n ds (valueFrom n ds)
  | point (ds fs : List UInt8) (digits : AllDigits ds) (decimals : AllDigits fs) :
    DenotesAfter n (ds ++ 46 :: fs) (valueFrom n ds + value fs / 10 ^ fs.length)

theorem not_isDigit_point : ¬ IsDigit 46 := by decide

theorem denotesAfter_nil {n : Nat} {q : ℚ} : DenotesAfter n [] q ↔ q = n := by
  constructor
  · intro h
    generalize hs : ([] : List UInt8) = s at h
    cases h with
    | whole => rw [← hs, valueFrom_nil]
    | point ds fs => simp at hs
  · rintro rfl
    exact .whole [] allDigits_nil

/-- The next byte is a digit or the point. -/
theorem denotesAfter_cons {n : Nat} {c : UInt8} {s : List UInt8} {q : ℚ} :
    DenotesAfter n (c :: s) q ↔
      IsDigit c ∧ DenotesAfter (10 * n + digit c) s q ∨
        c = 46 ∧ AllDigits s ∧ q = n + value s / 10 ^ s.length := by
  constructor
  · intro h
    generalize ht : c :: s = t at h
    cases h with
    | whole _ digits =>
      subst ht
      obtain ⟨first, digits⟩ := allDigits_cons.1 digits
      exact .inl ⟨first, by simpa using DenotesAfter.whole s digits⟩
    | point ds fs digits decimals =>
      cases ds with
      | nil =>
        obtain ⟨rfl, rfl⟩ := List.cons.inj ht
        exact .inr ⟨rfl, decimals, by simp⟩
      | cons d ds =>
        obtain ⟨rfl, rfl⟩ := List.cons.inj ht
        obtain ⟨first, digits⟩ := allDigits_cons.1 digits
        exact .inl ⟨first, by simpa using DenotesAfter.point ds fs digits decimals⟩
  · rintro (⟨first, h⟩ | ⟨rfl, decimals, rfl⟩)
    · cases h with
      | whole _ digits =>
        simpa using DenotesAfter.whole (c :: s) (allDigits_cons.2 ⟨first, digits⟩)
      | point ds fs digits decimals =>
        simpa using DenotesAfter.point (c :: ds) fs (allDigits_cons.2 ⟨first, digits⟩) decimals
    · simpa using DenotesAfter.point (n := n) [] s allDigits_nil decimals

/-- A numeral is a digit and what can be read on after it. -/
theorem denotesUnsigned_cons {c : UInt8} {s : List UInt8} {q : ℚ} :
    DenotesUnsigned (c :: s) q ↔ IsDigit c ∧ DenotesAfter (digit c) s q := by
  constructor
  · intro h
    generalize ht : c :: s = t at h
    cases h with
    | whole _ _ digits =>
      subst ht
      obtain ⟨first, digits⟩ := allDigits_cons.1 digits
      exact ⟨first, by simpa using DenotesAfter.whole (n := digit c) s digits⟩
    | point ds fs nonempty digits decimals =>
      obtain ⟨d, ds, rfl⟩ := List.exists_cons_of_ne_nil nonempty
      obtain ⟨rfl, rfl⟩ := List.cons.inj ht
      obtain ⟨first, digits⟩ := allDigits_cons.1 digits
      exact ⟨first, by
        simpa [fraction] using DenotesAfter.point (n := digit c) ds fs digits decimals⟩
  · rintro ⟨first, h⟩
    cases h with
    | whole _ digits =>
      simpa using DenotesUnsigned.whole (c :: s) (by simp) (allDigits_cons.2 ⟨first, digits⟩)
    | point ds fs digits decimals =>
      simpa [fraction] using DenotesUnsigned.point (c :: ds) fs (by simp)
        (allDigits_cons.2 ⟨first, digits⟩) decimals

theorem not_denotesUnsigned_nil (q : ℚ) : ¬ DenotesUnsigned [] q := by
  intro h
  obtain ⟨c, t, same, -⟩ := h.head
  cases same

/-! ## Printing with a fixed number of decimals -/

/-- `n / 10 ^ d`, printed with `d` decimals. -/
def fixed (d n : Nat) : List UInt8 := render (n / 10 ^ d) ++ 46 :: pad d (n % 10 ^ d)

theorem denotesUnsigned_fixed {d : Nat} (pos : 0 < d) (n : Nat) :
    DenotesUnsigned (fixed d n) ((n : ℚ) / 10 ^ d) := by
  have small : n % 10 ^ d < 10 ^ d := Nat.mod_lt n (by positivity)
  have parts : ((n / 10 ^ d : Nat) : ℚ) + ((n % 10 ^ d : Nat) : ℚ) / 10 ^ d = (n : ℚ) / 10 ^ d := by
    have split : ((10 ^ d * (n / 10 ^ d) + n % 10 ^ d : Nat) : ℚ) = n :=
      congrArg Nat.cast (Nat.div_add_mod n (10 ^ d))
    push_cast at split
    field_simp
    rw [mul_comm, split]
  have point := DenotesUnsigned.point (render (n / 10 ^ d)) (pad d (n % 10 ^ d)) (render_ne_nil _)
    (allDigits_render _) (allDigits_pad _ _)
  rwa [fraction, value_render, value_pad, length_pad pos small, parts] at point

/-- The same with a minus in front of a negative number. -/
theorem denotesRat_fixed (neg : Bool) {d : Nat} (pos : 0 < d) (n : Nat) :
    DenotesRat ((if neg then [45] else []) ++ fixed d n) (signFactor neg * (n / 10 ^ d)) := by
  have unsigned := denotesUnsigned_fixed pos n
  cases neg with
  | false => simpa [signFactor] using DenotesRat.plain unsigned
  | true => simpa [signFactor] using DenotesRat.minus unsigned

theorem length_fixed {d : Nat} (pos : 0 < d) (n : Nat) :
    (fixed d n).length = (render (n / 10 ^ d)).length + 1 + d := by
  rw [fixed, List.length_append, List.length_cons, length_pad pos (Nat.mod_lt n (by positivity))]
  omega

theorem length_render_le_iff {n w : Nat} (pos : 0 < w) :
    (render n).length ≤ w ↔ n < 10 ^ w := by
  rw [render, List.length_map]
  exact Nat.length_toDigits_le_iff (by decide) pos

/-- No NUL is printed. -/
theorem zero_notMem_fixed (d n : Nat) : 0 ∉ fixed d n := by
  have noNul {s : List UInt8} (digits : AllDigits s) : 0 ∉ s := fun h =>
    absurd (digits 0 h) (by decide)
  simp only [fixed, List.mem_append, List.mem_cons, not_or]
  exact ⟨noNul (allDigits_render _), by decide, noNul (allDigits_pad _ _)⟩

/-! ## Rounding -/

/-- The natural number nearest to `num / den`, the even one of two that are as near. -/
def roundHalfEven (num den : Nat) : Nat :=
  if 2 * (num % den) < den ∨ 2 * (num % den) = den ∧ num / den % 2 = 0 then num / den
  else num / den + 1

theorem roundHalfEven_one (n : Nat) : roundHalfEven n 1 = n := by
  simp [roundHalfEven, Nat.mod_one]

/-- A quotient below a natural number is rounded to at most that. -/
theorem roundHalfEven_le {num den k : Nat} (h : num < den * k) : roundHalfEven num den ≤ k := by
  have quotient : num / den < k := Nat.div_lt_of_lt_mul h
  unfold roundHalfEven
  split <;> omega

end Decimal
