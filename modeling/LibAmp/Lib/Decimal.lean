import Mathlib.Data.List.Induction
import Mathlib.Tactic.IntervalCases
import Mathlib.Tactic.Linarith
import Mathlib.Tactic.Ring

/-!
# Decimal numerals

What a string of ASCII digits denotes, with an optional sign in front of it, and the strings of
digits a number is printed as: the shortest one, and the one of a given width.

## Main definitions

* `Decimal.value` — the number a string of digits stands for.
* `Decimal.Denotes` — an optionally signed numeral and the integer it stands for.
* `Decimal.render`, `Decimal.pad` — a number printed, and printed at a given width.
-/

namespace Decimal

/-! ## Digits -/

def IsDigit (c : UInt8) : Prop := 48 ≤ c.toNat ∧ c.toNat ≤ 57

instance : DecidablePred IsDigit := fun _ => inferInstanceAs (Decidable (_ ∧ _))

def digit (c : UInt8) : Nat := c.toNat - 48

def AllDigits (s : List UInt8) : Prop := ∀ c ∈ s, IsDigit c

instance : DecidablePred AllDigits := fun s => inferInstanceAs (Decidable (∀ c ∈ s, IsDigit c))

@[simp] theorem allDigits_nil : AllDigits [] := by
  intro c hc
  cases hc

@[simp] theorem allDigits_cons {c : UInt8} {s : List UInt8} :
    AllDigits (c :: s) ↔ IsDigit c ∧ AllDigits s :=
  List.forall_mem_cons

@[simp] theorem allDigits_append {s t : List UInt8} :
    AllDigits (s ++ t) ↔ AllDigits s ∧ AllDigits t :=
  List.forall_mem_append

/-- The number read once the digits `s` follow digits that stand for `acc`. -/
def valueFrom (acc : Nat) (s : List UInt8) : Nat := s.foldl (fun acc c => 10 * acc + digit c) acc

abbrev value (s : List UInt8) : Nat := valueFrom 0 s

@[simp, grind =] theorem valueFrom_nil (acc : Nat) : valueFrom acc [] = acc :=
  List.foldl_nil

@[simp, grind =] theorem valueFrom_cons (acc : Nat) (c : UInt8) (s : List UInt8) :
    valueFrom acc (c :: s) = valueFrom (10 * acc + digit c) s := by
  rw [valueFrom, valueFrom, List.foldl_cons]

theorem valueFrom_append (acc : Nat) (s t : List UInt8) :
    valueFrom acc (s ++ t) = valueFrom (valueFrom acc s) t :=
  List.foldl_append

/-- Further digits only make the number larger. -/
theorem le_valueFrom (acc : Nat) (s : List UInt8) : acc ≤ valueFrom acc s := by
  induction s generalizing acc with
  | nil => exact le_rfl
  | cons c s ih =>
    rw [valueFrom_cons]
    exact le_trans (by omega) (ih _)

theorem digit_lt {c : UInt8} (h : IsDigit c) : digit c < 10 := by
  unfold IsDigit at h
  unfold digit
  omega

theorem digit_injective {c d : UInt8} (hc : IsDigit c) (hd : IsDigit d) (h : digit c = digit d) :
    c = d := by
  apply UInt8.toNat_inj.1
  unfold IsDigit at hc hd
  unfold digit at h
  omega

/-- At one width, the digits are determined by the number. -/
theorem value_injective {s t : List UInt8} (hs : AllDigits s) (ht : AllDigits t)
    (length : s.length = t.length) (h : value s = value t) : s = t := by
  induction s using List.reverseRecOn generalizing t with
  | nil => exact (List.length_eq_zero_iff.1 length.symm).symm
  | append_singleton s c ih =>
    rcases List.eq_nil_or_concat t with rfl | ⟨t, d, rfl⟩
    · simp at length
    · rw [List.concat_eq_append] at *
      simp only [allDigits_append, allDigits_cons, allDigits_nil, and_true] at hs ht
      have hc : digit c < 10 := digit_lt hs.2
      have hd : digit d < 10 := digit_lt ht.2
      simp only [value, valueFrom_append, valueFrom_cons, valueFrom_nil] at h
      have front : s = t := by
        apply ih hs.1 ht.1
        · simpa using length
        · simp only [value]
          omega
      have last : c = d := digit_injective hs.2 ht.2 (by omega)
      rw [front, last]

/-! ## Signed numerals -/

/-- A natural number with a sign. -/
def signed (neg : Bool) (n : Nat) : Int := if neg then -n else n

/-- `s` is an optional sign, `+` or `-`, and at least one digit, and stands for `v`. -/
inductive Denotes : List UInt8 → Int → Prop where
  | plain (ds : List UInt8) (nonempty : ds ≠ []) (digits : AllDigits ds) :
    Denotes ds (value ds)
  | plus (ds : List UInt8) (nonempty : ds ≠ []) (digits : AllDigits ds) :
    Denotes (43 :: ds) (value ds)
  | minus (ds : List UInt8) (nonempty : ds ≠ []) (digits : AllDigits ds) :
    Denotes (45 :: ds) (-value ds)

theorem not_denotes_nil (v : Int) : ¬ Denotes [] v := by
  intro h
  cases h with
  | plain _ nonempty _ => exact nonempty rfl

/-- The first byte decides how the rest is read. -/
theorem denotes_cons_iff (c : UInt8) (rest : List UInt8) (v : Int) :
    Denotes (c :: rest) v ↔
      (if c = 43 ∨ c = 45 then rest else c :: rest) ≠ [] ∧
      AllDigits (if c = 43 ∨ c = 45 then rest else c :: rest) ∧
      v = signed (c = 45) (value (if c = 43 ∨ c = 45 then rest else c :: rest)) := by
  constructor
  · intro h
    cases h with
    | plain _ nonempty digits =>
      have range : IsDigit c := (allDigits_cons.1 digits).1
      have notSign : c ≠ 43 ∧ c ≠ 45 := by
        constructor <;> rintro rfl <;> exact absurd range (by decide)
      simpa [notSign, signed] using digits
    | plus _ nonempty digits => exact ⟨by simpa, by simpa using digits, by simp [signed]⟩
    | minus _ nonempty digits => exact ⟨by simpa, by simpa using digits, by simp [signed]⟩
  · rintro ⟨nonempty, digits, rfl⟩
    by_cases plus : c = 43
    · subst plus
      simp only [true_or, ↓reduceIte] at nonempty digits ⊢
      exact .plus rest nonempty digits
    · by_cases minus : c = 45
      · subst minus
        simp only [or_true, ↓reduceIte] at nonempty digits ⊢
        exact .minus rest nonempty digits
      · simp only [plus, minus, or_self, ↓reduceIte] at nonempty digits ⊢
        exact .plain _ nonempty digits

theorem Denotes.unique {s : List UInt8} {v w : Int} (hv : Denotes s v) (hw : Denotes s w) :
    v = w := by
  rcases s with _ | ⟨c, rest⟩
  · exact absurd hv (not_denotes_nil v)
  · rw [((denotes_cons_iff c rest v).1 hv).2.2, ((denotes_cons_iff c rest w).1 hw).2.2]

/-- A numeral without a sign is all digits. -/
theorem Denotes.value_of_allDigits {s : List UInt8} {v : Int} (h : Denotes s v)
    (digits : AllDigits s) : v = value s := by
  have nonempty : s ≠ [] := by
    rintro rfl
    exact not_denotes_nil v h
  exact h.unique (.plain s nonempty digits)

/-- Digits do not start with a sign. -/
theorem AllDigits.unsigned {s : List UInt8} (h : AllDigits s) :
    s.head? ≠ some 43 ∧ s.head? ≠ some 45 := by
  rcases s with _ | ⟨c, s⟩
  · exact ⟨nofun, nofun⟩
  · have range : IsDigit c := (allDigits_cons.1 h).1
    rw [List.head?_cons]
    constructor <;> rintro ⟨⟩ <;> exact absurd range (by decide)

theorem Denotes.allDigits {s : List UInt8} {v : Int} (h : Denotes s v)
    (unsigned : s.head? ≠ some 43 ∧ s.head? ≠ some 45) : AllDigits s := by
  cases h with
  | plain _ _ digits => exact digits
  | plus _ _ _ => exact absurd rfl unsigned.1
  | minus _ _ _ => exact absurd rfl unsigned.2

/-! ## Printing -/

/-- The shortest string of digits for `n`. -/
def render (n : Nat) : List UInt8 := (Nat.toDigits 10 n).map fun c => c.toNat.toUInt8

theorem toNat_toUInt8 {n : Nat} (h : n < 256) : n.toUInt8.toNat = n :=
  UInt8.toNat_ofNat_of_lt h

theorem render_eq (n : Nat) :
    render n =
      if n < 10 then [(48 + n).toUInt8] else render (n / 10) ++ [(48 + n % 10).toUInt8] := by
  have digitChar (d : Nat) (h : d < 10) : (Nat.digitChar d).toNat = 48 + d := by
    interval_cases d <;> rfl
  split
  · next h => rw [render, Nat.toDigits_of_lt_base h, List.map_singleton, digitChar n h]
  · next h =>
    rw [render, Nat.toDigits_of_base_le (by decide) (by omega), List.map_append,
      List.map_singleton, digitChar _ (Nat.mod_lt n (by decide)), render]

theorem render_ne_nil (n : Nat) : render n ≠ [] := by
  rw [render_eq]
  split <;> simp

theorem isDigit_ofNat {d : Nat} (h : d < 10) : IsDigit (48 + d).toUInt8 := by
  rw [IsDigit, toNat_toUInt8 (by omega)]
  omega

theorem allDigits_render (n : Nat) : AllDigits (render n) := by
  induction n using Nat.strong_induction_on with
  | _ n ih =>
    rw [render_eq]
    split
    · next h => simpa using isDigit_ofNat h
    · next h =>
      have last : IsDigit (48 + n % 10).toUInt8 := isDigit_ofNat (by omega)
      exact allDigits_append.2 ⟨ih (n / 10) (by omega), allDigits_cons.2 ⟨last, allDigits_nil⟩⟩

theorem value_render (n : Nat) : value (render n) = n := by
  have digit_eq (d : Nat) (h : d < 10) : digit (48 + d).toUInt8 = d := by
    rw [digit, toNat_toUInt8 (by omega)]
    omega
  induction n using Nat.strong_induction_on with
  | _ n ih =>
    rw [render_eq]
    split
    · next h => rw [value, valueFrom_cons, valueFrom_nil, digit_eq n h, mul_zero, zero_add]
    · next h =>
      rw [value, valueFrom_append, ← value, ih (n / 10) (by omega), valueFrom_cons, valueFrom_nil,
        digit_eq _ (Nat.mod_lt n (by decide))]
      omega

theorem denotes_render (n : Nat) : Denotes (render n) n := by
  have h : Denotes (render n) (value (render n)) := .plain _ (render_ne_nil n) (allDigits_render n)
  rwa [value_render] at h

theorem length_render_le {n w : Nat} (pos : 0 < w) (h : n < 10 ^ w) : (render n).length ≤ w := by
  rw [render, List.length_map]
  exact (Nat.length_toDigits_le_iff (by decide) pos).2 h

/-- `n` printed with zeros in front, up to the width. -/
def pad (width n : Nat) : List UInt8 :=
  List.replicate (width - (render n).length) 48 ++ render n

theorem length_pad {w n : Nat} (pos : 0 < w) (h : n < 10 ^ w) : (pad w n).length = w := by
  have := length_render_le pos h
  simp only [pad, List.length_append, List.length_replicate]
  omega

theorem allDigits_pad (w n : Nat) : AllDigits (pad w n) := by
  refine allDigits_append.2 ⟨?_, allDigits_render n⟩
  intro c hc
  rw [List.eq_of_mem_replicate hc]
  decide

theorem value_pad (w n : Nat) : value (pad w n) = n := by
  have zeros (k : Nat) : value (List.replicate k 48) = 0 := by
    induction k with
    | zero => rfl
    | succ k ih => exact ih
  rw [pad, value, valueFrom_append, ← value, zeros]
  exact value_render n

theorem denotes_pad (w n : Nat) : Denotes (pad w n) n := by
  have h : Denotes (pad w n) (value (pad w n)) := by
    refine .plain _ ?_ (allDigits_pad w n)
    simp [pad, render_ne_nil]
  rwa [value_pad] at h

end Decimal
