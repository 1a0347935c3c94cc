import LibAmp.GetDouble
import LibAmp.Integers

/-!
# Storing a `double` (`amp_put_double`)

A finite number is printed with 17 decimals into an array of 100 bytes, and what `snprintf`
returns is taken for the size of the text. From 10⁸² on (10⁸¹ for a negative number) that is more
than the array holds.

## Main results

* `FiniteDouble.length_rendering_le_iff`: the length of the rendering, from the magnitude
* `put_double_iff`: when the rendering and nothing else is stored, or an error returned
* `double_round_trip`: what is stored is read back, rounded to 17 decimals
-/

namespace LibAmp

open Decimal

/-! ## Doubles -/

/-- A finite `double`: `significand * 2 ^ exponent`, with a sign bit that a zero has too. -/
structure FiniteDouble where
  neg : Bool
  significand : Nat
  exponent : Int
  significand_lt : significand < 2 ^ 53
  le_exponent : -1074 ≤ exponent
  exponent_le : exponent ≤ 971

inductive Double where
  | nan
  | infinity (neg : Bool)
  | finite (x : FiniteDouble)

namespace FiniteDouble

/-- The magnitude of the number, as a fraction of natural numbers. -/
def num (x : FiniteDouble) : Nat := x.significand * 2 ^ x.exponent.toNat

def den (x : FiniteDouble) : Nat := 2 ^ (-x.exponent).toNat

def magnitude (x : FiniteDouble) : ℚ := x.significand * 2 ^ x.exponent

/-- How many units of the 17th decimal the magnitude is rounded to. -/
def scaled (x : FiniteDouble) : Nat := roundHalfEven (x.num * 10 ^ 17) x.den

/-- The text of `%.17f`. -/
def rendering (x : FiniteDouble) : List UInt8 :=
  (if x.neg then [45] else []) ++ fixed 17 x.scaled

end FiniteDouble

/-! ## `amp_put_double` -/

/-- The size of `buf`, less the byte for the terminator. -/
def doubleBufRoom : Nat := 99

/-- `strncpy(buf, text, n)` for a text of at least `n` bytes: no terminator is written. -/
def Buffer.strncpy {cap : Nat} (buf : Buffer cap) (text : List UInt8) (n : Nat)
    (room : (text.take n).length ≤ cap) : Buffer cap :=
  ⟨overwrite buf.bytes 0 (text.take n), by
    rw [length_overwrite, buf.length_eq]
    rw [buf.length_eq]
    omega⟩

theorem Buffer.take_strncpy {cap : Nat} (buf : Buffer cap) (text : List UInt8)
    (room : (text.take text.length).length ≤ cap) :
    (buf.strncpy text text.length room).bytes.take text.length = text := by
  simp [Buffer.strncpy, overwrite]

/-- The local array and `buf_size` before the call of `_amp_put_buf`, and how many bytes of the
array have been written. -/
structure PrintedDouble where
  buf : Buffer (doubleBufRoom + 1)
  bufSize : Nat
  written : Nat

/-- The branches of `amp_put_double`; `buf` is what was on the stack. -/
def printDouble (buf : Buffer (doubleBufRoom + 1)) : Double → PrintedDouble
  | .nan => ⟨buf.strncpy (ascii "nan") 3 (by decide), 3, 3⟩
  | .infinity false => ⟨buf.strncpy (ascii "inf") 3 (by decide), 3, 3⟩
  | .infinity true => ⟨buf.strncpy (ascii "-inf") 4 (by decide), 4, 4⟩
  | .finite x =>
    -- `snprintf` returns the length of the whole text, whatever it had room for
    ⟨buf.print x.rendering, x.rendering.length,
      (snprintf (doubleBufRoom + 1) x.rendering).length + 1⟩

def ampPutDouble (mem : Mem) (buf : Buffer (doubleBufRoom + 1)) (box : Option AmpBox)
    (key : CString) (value : Double) : Except Fault PutResult :=
  ampPutBuf mem box key (printDouble buf value).buf.bytes (printDouble buf value).bufSize

namespace FiniteDouble

/-! ## The rendering -/

theorem den_pos (x : FiniteDouble) : 0 < x.den := Nat.two_pow_pos _

theorem magnitude_eq (x : FiniteDouble) : x.magnitude = (x.num : ℚ) / x.den := by
  rw [magnitude, num, den]
  rcases Int.le_total 0 x.exponent with h | h
  · obtain ⟨e, he⟩ := Int.eq_ofNat_of_zero_le h
    have none : (-(e : Int)).toNat = 0 := by omega
    simp [he, none]
  · obtain ⟨e, he⟩ := Int.eq_ofNat_of_zero_le (Int.neg_nonneg_of_nonpos h)
    have same : x.exponent = -(e : Int) := by omega
    simp [same, div_eq_mul_inv]

theorem magnitude_lt_iff (x : FiniteDouble) (k : Nat) :
    x.magnitude < k ↔ x.num < x.den * k := by
  have pos : (0 : ℚ) < x.den := by exact_mod_cast x.den_pos
  rw [magnitude_eq, div_lt_iff₀ pos, mul_comm]
  exact_mod_cast Iff.rfl

/-- The rendering is the number rounded to 17 decimals. -/
theorem denotes_rendering (x : FiniteDouble) :
    DenotesRat x.rendering (signFactor x.neg * (x.scaled / 10 ^ 17)) :=
  denotesRat_fixed x.neg (by decide) x.scaled

/-- Before the point stand the digits of a number that is below a power of ten exactly if the
magnitude is. -/
theorem scaled_div_lt_iff (x : FiniteDouble) {w : Nat} (hw : 16 ≤ w) :
    x.scaled / 10 ^ 17 < 10 ^ w ↔ x.magnitude < 10 ^ w := by
  have cast := x.magnitude_lt_iff (10 ^ w)
  push_cast at cast
  rw [cast]
  rcases Int.le_total 0 x.exponent with whole | small
  · have one : x.den = 1 := by
      rw [den, show (-x.exponent).toNat = 0 by omega, pow_zero]
    rw [scaled, one, roundHalfEven_one, Nat.mul_div_cancel _ (by positivity), one_mul]
  · -- below 2⁵³ both sides hold
    have few : x.num < 2 ^ 53 := by
      have := x.significand_lt
      rwa [num, show x.exponent.toNat = 0 by omega, pow_zero, mul_one]
    have large : 2 ^ 53 < 10 ^ w := by
      calc 2 ^ 53 < 10 ^ 16 := by norm_num
        _ ≤ 10 ^ w := Nat.pow_le_pow_right (by decide) hw
    have denPos := x.den_pos
    have bound : x.scaled ≤ 2 ^ 53 * 10 ^ 17 := by
      apply roundHalfEven_le
      calc x.num * 10 ^ 17 < 2 ^ 53 * 10 ^ 17 := Nat.mul_lt_mul_of_pos_right few (by positivity)
        _ ≤ x.den * (2 ^ 53 * 10 ^ 17) := Nat.le_mul_of_pos_left _ denPos
    have left : x.scaled / 10 ^ 17 < 10 ^ w := by
      refine lt_of_le_of_lt ?_ large
      exact Nat.div_le_of_le_mul (by rwa [mul_comm])
    have right : x.num < x.den * 10 ^ w :=
      (few.trans large).trans_le (Nat.le_mul_of_pos_left _ denPos)
    exact iff_of_true left right

theorem length_rendering_le_iff (x : FiniteDouble) {w : Nat} (hw : 16 ≤ w) :
    x.rendering.length ≤ (if x.neg then 1 else 0) + w + 18 ↔ x.magnitude < 10 ^ w := by
  have digits := length_render_le_iff (n := x.scaled / 10 ^ 17) (w := w) (by omega)
  rw [← x.scaled_div_lt_iff hw, ← digits, rendering, List.length_append,
    length_fixed (by decide)]
  cases x.neg with
  | false =>
    simp only [Bool.false_eq_true, ↓reduceIte, List.length_nil]
    omega
  | true =>
    simp only [↓reduceIte, List.length_cons, List.length_nil]
    omega

/-- Every magnitude is below 2¹⁰²⁴. -/
theorem magnitude_lt (x : FiniteDouble) {w : Nat} (hw : 1024 ≤ w) : x.magnitude < 10 ^ w := by
  have exponent : 53 + x.exponent.toNat ≤ w := by
    have := x.exponent_le
    omega
  have large : x.num < 10 ^ w := by
    calc x.num < 2 ^ 53 * 2 ^ x.exponent.toNat :=
          Nat.mul_lt_mul_of_pos_right x.significand_lt (Nat.two_pow_pos _)
      _ = 2 ^ (53 + x.exponent.toNat) := (Nat.pow_add 2 53 x.exponent.toNat).symm
      _ ≤ 10 ^ (53 + x.exponent.toNat) := Nat.pow_le_pow_left (by decide) _
      _ ≤ 10 ^ w := Nat.pow_le_pow_right (by decide) exponent
  have lt := (x.magnitude_lt_iff (10 ^ w)).2
    (large.trans_le (Nat.le_mul_of_pos_left _ x.den_pos))
  exact_mod_cast lt

/-- No rendering comes near the limit of a value. -/
theorem length_rendering_le (x : FiniteDouble) : x.rendering.length ≤ maxValueLength := by
  have length := (x.length_rendering_le_iff (by decide)).2 (x.magnitude_lt le_rfl)
  refine length.trans ?_
  cases x.neg <;> decide

theorem zero_notMem_rendering (x : FiniteDouble) : 0 ∉ x.rendering := by
  rw [rendering, List.mem_append, not_or]
  refine ⟨?_, zero_notMem_fixed 17 x.scaled⟩
  cases x.neg <;> decide

end FiniteDouble

/-! ## What is stored -/

/-- The text that is printed. -/
def Double.text : Double → List UInt8
  | .nan => ascii "nan"
  | .infinity neg => if neg then ascii "-inf" else ascii "inf"
  | .finite x => x.rendering

/-- What fits is in the array, and its size is the one that is handed on. -/
theorem printDouble_of_length_le (buf : Buffer (doubleBufRoom + 1)) {value : Double}
    (room : value.text.length ≤ doubleBufRoom) :
    (printDouble buf value).bufSize = value.text.length ∧
      (printDouble buf value).buf.bytes.take value.text.length = value.text := by
  cases value with
  | nan => exact ⟨rfl, buf.take_strncpy (ascii "nan") (by decide)⟩
  | infinity neg =>
    cases neg with
    | false => exact ⟨rfl, buf.take_strncpy (ascii "inf") (by decide)⟩
    | true => exact ⟨rfl, buf.take_strncpy (ascii "-inf") (by decide)⟩
  | finite x => exact ⟨rfl, buf.take_print room⟩

/-- A byte more is room enough for `_amp_put_buf`, but that byte is the terminator. -/
theorem printDouble_of_length_eq (buf : Buffer (doubleBufRoom + 1)) {x : FiniteDouble}
    (full : x.rendering.length = doubleBufRoom + 1) :
    (printDouble buf (.finite x)).buf.bytes.take x.rendering.length =
      x.rendering.take doubleBufRoom ++ [0] := by
  have cut : (x.rendering.take doubleBufRoom).length = doubleBufRoom := by
    rw [List.length_take, full]
    rfl
  rw [printDouble, Buffer.print_bytes, snprintf, Nat.add_sub_cancel, cut,
    List.drop_of_length_le buf.length_eq.le]
  apply List.take_of_length_le
  rw [List.length_append, cut, full]
  rfl

/-- The size that is handed on is the length of the text, cut off or not. -/
theorem bufSize_le_written_iff (buf : Buffer (doubleBufRoom + 1)) (x : FiniteDouble) :
    (printDouble buf (.finite x)).bufSize ≤ (printDouble buf (.finite x)).written ↔
      x.rendering.length ≤ doubleBufRoom + 1 := by
  simp only [printDouble, snprintf, List.length_take]
  omega

/-- A size that the array has room for: the put is the one of the finite map. -/
theorem AmpBox.WF.putDouble {box : AmpBox} (wf : box.WF) (mem : Mem)
    (buf : Buffer (doubleBufRoom + 1)) (key : CString) (value : Double)
    (room : (printDouble buf value).bufSize ≤ doubleBufRoom + 1) :
    ∃ r box', ampPutDouble mem buf (some box) key value = .ok r ∧ r.box = some box' ∧ box'.WF ∧
      (box.toMap.Refused mem key → r.ret ≠ 0 ∧ box'.toMap = box.toMap) ∧
      (¬ box.toMap.Refused mem key → r.ret = 0 ∧ box'.toMap = box.toMap.insert key
        ((printDouble buf value).buf.bytes.take (printDouble buf value).bufSize)) := by
  have held : ((printDouble buf value).bufSize : Int) ≤
      (printDouble buf value).buf.bytes.length := by
    rw [(printDouble buf value).buf.length_eq]
    exact_mod_cast room
  have valLe : (printDouble buf value).bufSize ≤ maxValueLength := room.trans (by decide)
  obtain ⟨box', put, wf', map⟩ := wf.putBuf mem key held
  refine ⟨_, box', put, rfl, wf', fun refused => ?_, fun served => ?_⟩
  · obtain ⟨ret, same⟩ := BoxMap.put_refused refused (printDouble buf value).buf.bytes valLe
    exact ⟨ret, map.trans same⟩
  · obtain ⟨ret, new⟩ := BoxMap.put_served served (printDouble buf value).buf.bytes valLe
    exact ⟨ret, map.trans new⟩

/-- What storing a finite number is to do: hand on no more bytes than have been written, and store
the rendering or return an error and store nothing. -/
structure StoresRendering (mem : Mem) (buf : Buffer (doubleBufRoom + 1)) (box : AmpBox)
    (key : CString) (x : FiniteDouble) : Prop where
  written : (printDouble buf (.finite x)).bufSize ≤ (printDouble buf (.finite x)).written
  stored : ∃ r box', ampPutDouble mem buf (some box) key (.finite x) = .ok r ∧ r.box = some box' ∧
    (r.ret = 0 ∧ box'.toMap = box.toMap.insert key x.rendering ∨
      r.ret ≠ 0 ∧ box'.toMap = box.toMap)

section

variable {mem : Mem} {box : AmpBox} {key : CString}

theorem storesRendering_of_length_le (wf : box.WF) (buf : Buffer (doubleBufRoom + 1))
    {x : FiniteDouble} (room : (Double.finite x).text.length ≤ doubleBufRoom) :
    StoresRendering mem buf box key x := by
  obtain ⟨size, held⟩ := printDouble_of_length_le buf room
  obtain ⟨r, box', put, hbox, -, refused, served⟩ :=
    wf.putDouble mem buf key (.finite x) (Nat.le_succ_of_le room)
  refine ⟨(bufSize_le_written_iff buf x).2 (Nat.le_succ_of_le room), r, box', put, hbox, ?_⟩
  by_cases h : box.toMap.Refused mem key
  · exact .inr (refused h)
  · have stored := served h
    rw [size, held] at stored
    exact .inl stored

/-- At 100 characters the last one is replaced by the terminator. -/
theorem storesRendering_of_length_eq (wf : box.WF) (buf : Buffer (doubleBufRoom + 1))
    {x : FiniteDouble} (full : x.rendering.length = doubleBufRoom + 1) :
    StoresRendering mem buf box key x ↔ box.toMap.Refused mem key := by
  have held := printDouble_of_length_eq buf full
  obtain ⟨r, box', put, hbox, -, refused, served⟩ :=
    wf.putDouble mem buf key (.finite x) full.le
  constructor
  · intro stores
    by_contra h
    obtain ⟨ret, map⟩ := served h
    obtain ⟨r', box'', put', hbox', result⟩ := stores.stored
    obtain rfl : r = r' := by simpa [put] using put'
    obtain rfl : box' = box'' := by simpa [hbox] using hbox'
    rcases result with ⟨-, map'⟩ | ⟨failed, -⟩
    · have same := congrArg (Finmap.lookup key) (map.symm.trans map')
      rw [Finmap.lookup_insert, Finmap.lookup_insert, Option.some_inj] at same
      have terminated : 0 ∈ x.rendering.take doubleBufRoom ++ [0] := by simp
      rw [← held] at terminated
      exact x.zero_notMem_rendering (same ▸ terminated)
    · exact failed ret
  · intro h
    exact ⟨(bufSize_le_written_iff buf x).2 full.le, r, box', put, hbox, .inr (refused h)⟩

/-- From 101 characters on the size covers bytes that have not been written. -/
theorem not_storesRendering (buf : Buffer (doubleBufRoom + 1)) {x : FiniteDouble}
    (long : doubleBufRoom + 1 < x.rendering.length) : ¬ StoresRendering mem buf box key x := by
  intro stores
  have short := (bufSize_le_written_iff buf x).1 stores.written
  omega

/-- The copy then reads past the array, unless the put fails before that. -/
theorem ampPutDouble_overruns (buf : Buffer (doubleBufRoom + 1)) {x : FiniteDouble}
    (long : doubleBufRoom + 1 < x.rendering.length) (box : Option AmpBox)
    (nonempty : 0 < strlen key) (short : strlen key ≤ maxKeyLength)
    (memory : mem 0 .keyval = true) :
    ampPutDouble mem buf box key (.finite x) = .error .outOfBounds := by
  have okKey : ¬ (strlen key > maxKeyLength ∨ strlen key = 0) := by omega
  have okVal : ¬ ((x.rendering.length : Int) > maxValueLength ∨
      (x.rendering.length : Int) < 0) := by
    have := x.length_rendering_le
    omega
  have past : (x.rendering.length : Int) > (buf.print x.rendering).bytes.length := by
    rw [(buf.print x.rendering).length_eq]
    exact_mod_cast long
  rw [ampPutDouble, printDouble, ampPutBuf]
  simp only [okKey, okVal, ↓reduceDIte, malloc, memory, past]

end

/-- How many digits before the point there is room for. -/
def FiniteDouble.roomDigits (x : FiniteDouble) : Nat := if x.neg then 80 else 81

theorem FiniteDouble.length_rendering_le_room (x : FiniteDouble) (more : Nat) :
    x.rendering.length ≤ doubleBufRoom + more ↔ x.magnitude < 10 ^ (x.roomDigits + more) := by
  have enough : 16 ≤ x.roomDigits + more := by
    rw [roomDigits]
    split <;> omega
  have room : doubleBufRoom + more = (if x.neg then 1 else 0) + (x.roomDigits + more) + 18 := by
    rw [roomDigits, doubleBufRoom]
    split <;> omega
  rw [room, x.length_rendering_le_iff enough]

/-- For every box, every finite number, whatever was on the stack and whatever the allocator does:
the put is as it is to be exactly if the number has few enough digits before the point. One digit
more does no harm when the put fails for another reason. -/
theorem put_double_iff {box : AmpBox} (wf : box.WF) (mem : Mem)
    (buf : Buffer (doubleBufRoom + 1)) (key : CString) (x : FiniteDouble) :
    StoresRendering mem buf box key x ↔
      x.magnitude < 10 ^ x.roomDigits ∨
        x.magnitude < 10 ^ (x.roomDigits + 1) ∧ box.toMap.Refused mem key := by
  have fits := x.length_rendering_le_room 0
  have full := x.length_rendering_le_room 1
  rw [Nat.add_zero, Nat.add_zero] at fits
  rw [← fits, ← full]
  rcases Nat.lt_trichotomy x.rendering.length (doubleBufRoom + 1) with short | equal | long
  · have room : x.rendering.length ≤ doubleBufRoom := Nat.le_of_lt_succ short
    exact iff_of_true (storesRendering_of_length_le wf buf room) (.inl room)
  · rw [storesRendering_of_length_eq wf buf equal, equal]
    simp
  · refine iff_of_false (not_storesRendering buf long) ?_
    omega

/-- The number 1 in a new box. -/
theorem put_double_iff_one :
    StoresRendering plenty (Buffer.zeros 100) (AmpBox.new hashString) Key.ask
      ⟨false, 1, 0, by decide, by decide, by decide⟩ := by
  refine (put_double_iff (AmpBox.wf_new hashString) plenty (Buffer.zeros 100) Key.ask _).2 (.inl ?_)
  simp only [FiniteDouble.magnitude, FiniteDouble.roomDigits]
  norm_num

/-- 2³⁰⁰. -/
def FiniteDouble.huge : FiniteDouble := ⟨false, 2 ^ 52, 248, by decide, by decide, by decide⟩

/-- It has 91 digits: `_amp_put_buf` is to copy 109 bytes out of an array of 100. -/
theorem put_double_overruns :
    ampPutDouble plenty (Buffer.zeros 100) (some (AmpBox.new hashString)) Key.ask
        (.finite .huge) = .error .outOfBounds ∧
      ¬ StoresRendering plenty (Buffer.zeros 100) (AmpBox.new hashString) Key.ask .huge := by
  have long : doubleBufRoom + 1 < FiniteDouble.huge.rendering.length := by
    rw [← not_le, FiniteDouble.length_rendering_le_room, FiniteDouble.roomDigits, not_lt]
    simp only [FiniteDouble.magnitude, FiniteDouble.huge]
    norm_num
  exact ⟨ampPutDouble_overruns _ long _ (by decide) (by decide) rfl, not_storesRendering _ long⟩

/-! ## Reading back -/

/-- What a number that has been stored is read back as. -/
def Double.rounded : Double → DoubleValue
  | .nan => .nan
  | .infinity neg => .infinity neg
  | .finite x => .number (signFactor x.neg * (x.scaled / 10 ^ 17))

theorem Double.denotes_text (value : Double) : DenotesDouble value.text value.rounded := by
  cases value with
  | nan => exact .nan
  | infinity neg =>
    cases neg with
    | false => exact .infinity
    | true => exact .minusInfinity
  | finite x => exact .number x.denotes_rendering

theorem double_round_trip {box : AmpBox} (wf : box.WF) (mem : Mem)
    (buf : Buffer (doubleBufRoom + 1)) {key : CString} {value : Double}
    (room : value.text.length ≤ doubleBufRoom) (served : ¬ box.toMap.Refused mem key) :
    ∃ r box', ampPutDouble mem buf (some box) key value = .ok r ∧ r.box = some box' ∧ r.ret = 0 ∧
      ∀ old, ampGetDouble box' key old = (0, value.rounded) := by
  obtain ⟨size, held⟩ := printDouble_of_length_le buf room
  obtain ⟨r, box', put, hbox, wf', -, stored⟩ :=
    wf.putDouble mem buf key value (size ▸ Nat.le_succ_of_le room)
  obtain ⟨ret, map⟩ := stored served
  rw [size, held] at map
  have found : ampGetBuf box' key = .ok value.text := by
    rw [wf'.getBuf, map, Finmap.lookup_insert]
  refine ⟨r, box', put, hbox, ret, fun old => ?_⟩
  rcases ampGetDouble_cases found old with ⟨x, get, only⟩ | ⟨-, none⟩
  · rw [get, (only value.rounded).1 value.denotes_text]
  · exact absurd value.denotes_text (none value.rounded)

end LibAmp
