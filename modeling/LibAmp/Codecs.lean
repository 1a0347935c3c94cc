import LibAmp.BoxMap
import LibAmp.Integers

/-!
# The integer and boolean codecs

What one of the three integer types stores in a box, any of the three reads back, provided the
number is one of its values. Of a boolean it is read back whether it was 0.

## Main results

* `IntegerType.put_eq` — the whole decimal text is stored, in the buffer of each type.
* `integer_codecs_lossless` — nine encoder and decoder pairs, each exact.
* `bool_round_trip` — what `amp_get_bool` reads after `amp_put_bool`, and when it reads anything.
-/

namespace LibAmp

/-- The C types with an integer codec. -/
inductive IntegerType where
  | int
  | uint
  | longLong
  deriving DecidableEq, Repr

namespace IntegerType

abbrev Value : IntegerType → Type
  | .int => Int32
  | .uint => UInt32
  | .longLong => Int64

def toInt : (τ : IntegerType) → τ.Value → Int
  | .int, x => Int32.toInt x
  | .uint, x => UInt32.toNat x
  | .longLong, x => Int64.toInt x

def ofInt : (τ : IntegerType) → Int → τ.Value
  | .int, v => Int32.ofInt v
  | .uint, v => UInt32.ofInt v
  | .longLong, v => Int64.ofInt v

def lo : IntegerType → Int
  | .int => intMin
  | .uint => 0
  | .longLong => llongMin

def hi : IntegerType → Int
  | .int => intMax
  | .uint => uintMax
  | .longLong => llongMax

/-- The size of the array the encoder prints into. -/
def bufLen : IntegerType → Nat
  | .int => intBufLen
  | .uint => uintBufLen
  | .longLong => longLongBufLen

/-- `amp_put_int`, `amp_put_uint` or `amp_put_long_long`. -/
def put : (τ : IntegerType) → Mem → Option AmpBox → CString → τ.Value → Except Fault PutResult
  | .int => ampPutInt
  | .uint => ampPutUint
  | .longLong => ampPutLongLong

/-- `amp_get_int`, `amp_get_uint` or `amp_get_long_long`. -/
def get : (τ : IntegerType) → AmpBox → CString → Except AmpError τ.Value
  | .int => ampGetInt
  | .uint => ampGetUint
  | .longLong => ampGetLongLong

/-! ## The values of a type -/

theorem toInt_bounds (τ : IntegerType) (x : τ.Value) : τ.lo ≤ τ.toInt x ∧ τ.toInt x ≤ τ.hi := by
  cases τ with
  | int => exact ⟨Int32.le_toInt x, Int32.toInt_le x⟩
  | uint =>
    have := UInt32.toNat_lt x
    simp only [lo, hi, toInt, uintMax]
    omega
  | longLong => exact ⟨Int64.le_toInt x, Int64.toInt_le x⟩

theorem toInt_ofInt {τ : IntegerType} {v : Int} (h : τ.lo ≤ v ∧ v ≤ τ.hi) :
    τ.toInt (τ.ofInt v) = v := by
  cases τ with
  | int =>
    simp only [lo, hi, intMin, intMax] at h
    exact Int32.toInt_ofInt_of_le (by omega) (by omega)
  | uint =>
    simp only [lo, hi, uintMax] at h
    simp only [toInt, ofInt, UInt32.ofInt, UInt32.toNat_ofNat']
    omega
  | longLong =>
    simp only [lo, hi, llongMin, llongMax] at h
    exact Int64.toInt_ofInt_of_le (by omega) (by omega)

theorem ofInt_toInt (τ : IntegerType) (x : τ.Value) : τ.ofInt (τ.toInt x) = x := by
  cases τ with
  | int => exact Int32.ofInt_toInt x
  | uint =>
    apply UInt32.toNat_inj.1
    exact Int.ofNat_inj.1 (toInt_ofInt (toInt_bounds .uint x))
  | longLong => exact Int64.ofInt_toInt x

theorem inLongLong (τ : IntegerType) (x : τ.Value) : InLongLong (τ.toInt x) := by
  have bounds := toInt_bounds τ x
  cases τ <;>
    simp only [lo, hi, intMin, intMax, uintMax, llongMin, llongMax, InLongLong] at bounds ⊢ <;>
    omega

/-! ## What is stored and what is read -/

/-- Every type's buffer holds the decimal text of each of its values, the terminator included. -/
theorem length_signedDecimal_lt (τ : IntegerType) (x : τ.Value) :
    (signedDecimal (τ.toInt x)).length < τ.bufLen := by
  have bounds := toInt_bounds τ x
  cases τ with
  | int =>
    simp only [lo, hi, intMin, intMax] at bounds
    refine Nat.lt_succ_of_le (length_signedDecimal_le (w := 10) (by decide) ?_)
    omega
  | uint =>
    have nonneg : ¬ toInt .uint x < 0 := by
      simp only [lo] at bounds
      omega
    rw [signedDecimal, if_neg nonneg]
    exact Nat.lt_succ_of_le (length_decimal_le x)
  | longLong =>
    simp only [lo, hi, llongMin, llongMax] at bounds
    refine Nat.lt_succ_of_le (Nat.le_trans (length_signedDecimal_le (w := 19) (by decide) ?_) ?_)
    · omega
    · decide

/-- An unsigned value has the same text under `%u` as a signed one has under `%d`. -/
theorem signedDecimal_uint (x : UInt32) :
    signedDecimal (toInt .uint x) = Decimal.render x.toNat := by
  have nonneg : ¬ toInt .uint x < 0 := not_lt.2 (toInt_bounds .uint x).1
  rw [signedDecimal, if_neg nonneg]
  rfl

theorem put_eq (τ : IntegerType) (mem : Mem) (box : Option AmpBox) (key : CString) (x : τ.Value) :
    τ.put mem box key x = ampPutBytes mem box key (signedDecimal (τ.toInt x))
      (signedDecimal (τ.toInt x)).length := by
  have printed : τ.put mem box key x =
      ampPutBytes mem box key (snprintf τ.bufLen (signedDecimal (τ.toInt x)))
        (snprintf τ.bufLen (signedDecimal (τ.toInt x))).length := by
    cases τ with
    | int => rfl
    | uint =>
      rw [signedDecimal_uint]
      rfl
    | longLong => rfl
  rw [printed, snprintf_of_lt (length_signedDecimal_lt τ x)]

theorem get_eq (τ : IntegerType) {box : AmpBox} {key : CString} {buf : List UInt8} {v : Int}
    (stored : ampGetBuf box key = .ok buf) (read : buftoll buf = .ok v) :
    τ.get box key = if τ.lo ≤ v ∧ v ≤ τ.hi then .ok (τ.ofInt v) else .error ampOutOfRange := by
  have narrowed (lo hi : Int) : narrow lo hi box key =
      if lo ≤ v ∧ v ≤ hi then .ok v else .error ampOutOfRange := by
    simp only [narrow, stored, read, ge_iff_le]
  cases τ with
  | int =>
    rw [get, ampGetInt, narrowed]
    exact apply_ite _ _ _ _
  | uint =>
    rw [get, ampGetUint, narrowed]
    exact apply_ite _ _ _ _
  | longLong =>
    have range : longLong.lo ≤ v ∧ v ≤ longLong.hi := (buftoll_eq_ok_iff.1 read).2
    rw [get, if_pos range]
    simp only [ampGetLongLong, stored, read]
    rfl

end IntegerType

/-- Storing a value of one integer type and reading the key back at another gives that value,
if the other type has it, and is out of range if not. The text is stored whole. -/
theorem integer_codecs_lossless (σ τ : IntegerType) (x : σ.Value) {box : AmpBox} (wf : box.WF)
    {key : CString} (valid : 0 < strlen key ∧ strlen key ≤ maxKeyLength) :
    ∃ box', σ.put plenty (some box) key x = .ok ⟨0, some box', plenty⟩ ∧
      box'.toMap = box.toMap.insert key (signedDecimal (σ.toInt x)) ∧
      (∀ y : τ.Value, τ.toInt y = σ.toInt x → τ.get box' key = .ok y) ∧
      ((∀ y : τ.Value, τ.toInt y ≠ σ.toInt x) → τ.get box' key = .error ampOutOfRange) := by
  have short : (signedDecimal (σ.toInt x)).length < σ.bufLen :=
    IntegerType.length_signedDecimal_lt σ x
  have storable : Storable key (signedDecimal (σ.toInt x)) := by
    refine ⟨valid.1, valid.2, ?_⟩
    have largest : σ.bufLen ≤ maxValueLength := by cases σ <;> decide
    omega
  obtain ⟨put, wf', map⟩ := wf.add storable
  have stored : ampGetBuf (box.add key (signedDecimal (σ.toInt x))) key =
      .ok (signedDecimal (σ.toInt x)) := by
    rw [wf'.getBuf, map, Finmap.lookup_insert]
  have got := IntegerType.get_eq τ stored (buftoll_signedDecimal (IntegerType.inLongLong σ x))
  refine ⟨_, (IntegerType.put_eq σ plenty _ key x).trans put, map, ?_, ?_⟩
  · intro y same
    rw [got, ← same, if_pos (IntegerType.toInt_bounds τ y), IntegerType.ofInt_toInt]
  · intro absent
    rw [got]
    apply if_neg
    intro range
    exact absent _ (IntegerType.toInt_ofInt range)

theorem integer_codecs_lossless_uintMax :
    ∃ box', ampPutUint plenty (some (AmpBox.new hashString)) Key.ask 4294967295 =
        .ok ⟨0, some box', plenty⟩ ∧
      ampGetInt box' Key.ask = .error ampOutOfRange := by
  obtain ⟨box', put, -, -, outside⟩ := integer_codecs_lossless .uint .int (4294967295 : UInt32)
    (AmpBox.wf_new hashString)
    (show 0 < strlen Key.ask ∧ strlen Key.ask ≤ maxKeyLength by decide)
  refine ⟨box', put, outside fun y same => ?_⟩
  have small : IntegerType.int.toInt y ≤ intMax := (IntegerType.toInt_bounds .int y).2
  rw [same] at small
  exact absurd small (by decide)

/-! ## Booleans -/

/-- Nothing but the two texts is read as a boolean. -/
theorem ampGetBool_eq_ok_iff {box : AmpBox} (wf : box.WF) {key : CString} {value : Int32} :
    ampGetBool box key = .ok value ↔ (value = 0 ∨ value = 1) ∧
      box.toMap.lookup key = some (boolText value).bytes := by
  rw [ampGetBool, wf.getBuf]
  rcases box.toMap.lookup key with _ | buf
  · simp
  · constructor
    · grind [boolText]
    · rintro ⟨rfl | rfl, stored⟩ <;> cases stored <;> rfl

/-- A boolean that is stored is read back as 0 or 1. -/
theorem bool_round_trip {box : AmpBox} (wf : box.WF) {key : CString} (pos : 0 < strlen key)
    (le : strlen key ≤ maxKeyLength) (value : Int32) :
    ∃ box', ampPutBool plenty (some box) key value = .ok ⟨0, some box', plenty⟩ ∧
      box'.toMap = box.toMap.insert key (boolText value).bytes ∧
      ampGetBool box' key = .ok (if value ≠ 0 then 1 else 0) := by
  have storable : Storable key (boolText value).bytes := by
    refine ⟨pos, le, ?_⟩
    rw [boolText]
    split <;> decide
  obtain ⟨put, wf', map⟩ := wf.add storable
  refine ⟨_, put, map, (ampGetBool_eq_ok_iff wf').2 ⟨?_, ?_⟩⟩
  · split <;> decide
  · rw [map, Finmap.lookup_insert]
    by_cases zero : value = 0 <;> simp [boolText, zero]

end LibAmp
