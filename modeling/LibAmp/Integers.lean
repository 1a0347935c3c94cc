import LibAmp.Box
import LibAmp.Buftoll

/-!
# Decimal integers (`types.c`)

The three integer types of `types.c`. Decoding goes through `buftoll`, whose result `amp_get_int`
and `amp_get_uint` narrow to their own type; encoding prints into a buffer just large enough.
-/

namespace LibAmp

open Decimal (render)

def intMin : Int := -2147483648
def intMax : Int := 2147483647
def uintMax : Int := 4294967295

/-! ## Decoding -/

/-- A value that came out of `buftoll` and lies in the type's range. -/
def narrow (lo hi : Int) (box : AmpBox) (key : CString) : Except AmpError Int :=
  match ampGetBuf box key with
  | .error err => .error err
  | .ok buf =>
    match buftoll buf with
    | .error err => .error err
    | .ok tmp => if tmp ≥ lo ∧ tmp ≤ hi then .ok tmp else .error ampOutOfRange

def ampGetInt (box : AmpBox) (key : CString) : Except AmpError Int32 :=
  (narrow intMin intMax box key).map Int32.ofInt

def ampGetUint (box : AmpBox) (key : CString) : Except AmpError UInt32 :=
  (narrow 0 uintMax box key).map UInt32.ofInt

def ampGetLongLong (box : AmpBox) (key : CString) : Except AmpError Int64 :=
  match ampGetBuf box key with
  | .error err => .error err
  | .ok buf => (buftoll buf).map Int64.ofInt

/-! ## Encoding -/

/-- The text `%d` and `%lld` print; `%u` prints `Decimal.render`. -/
def signedDecimal (v : Int) : List UInt8 :=
  if v < 0 then 45 :: render v.natAbs else render v.natAbs

/-- `snprintf` keeps what fits before the terminator. -/
def snprintf (bufLen : Nat) (text : List UInt8) : List UInt8 := text.take (bufLen - 1)

/-- `snprintf` into an array, the terminator included. -/
def Buffer.print {cap : Nat} (buf : Buffer (cap + 1)) (text : List UInt8) : Buffer (cap + 1) :=
  ⟨overwrite buf.bytes 0 (snprintf (cap + 1) text ++ [0]), by
    rw [length_overwrite, buf.length_eq]
    rw [buf.length_eq, List.length_append, snprintf, List.length_take]
    simp⟩

/-- `(int)(log10(pow(2, 32))) + 2`. -/
def uintBufLen : Nat := 11

/-- `(int)(log10(pow(2, 32))) + 3`: a byte more, for the sign. -/
def intBufLen : Nat := 12

/-- `(int)(log10(pow(2, 64))) + 3`. -/
def longLongBufLen : Nat := 22

def ampPutInt (mem : Mem) (box : Option AmpBox) (key : CString) (value : Int32) :
    Except Fault PutResult :=
  let buf := snprintf intBufLen (signedDecimal value.toInt)
  ampPutBuf mem box key buf buf.length

def ampPutLongLong (mem : Mem) (box : Option AmpBox) (key : CString) (value : Int64) :
    Except Fault PutResult :=
  let buf := snprintf longLongBufLen (signedDecimal value.toInt)
  ampPutBuf mem box key buf buf.length

def ampPutUint (mem : Mem) (box : Option AmpBox) (key : CString) (value : UInt32) :
    Except Fault PutResult :=
  let buf := snprintf uintBufLen (render value.toNat)
  ampPutBuf mem box key buf buf.length

/-! ## Reading back what was written -/

theorem buftoll_decimal {n : Nat} (h : (n : Int) ≤ llongMax) : buftoll (render n) = .ok n := by
  refine buftoll_eq_ok_iff.2 ⟨Decimal.denotes_render n, ?_, h⟩
  simp only [llongMin]
  omega

theorem snprintf_of_lt {bufLen : Nat} {text : List UInt8} (room : text.length < bufLen) :
    snprintf bufLen text = text :=
  List.take_of_length_le (by omega)

theorem Buffer.print_bytes {cap : Nat} (buf : Buffer (cap + 1)) (text : List UInt8) :
    (buf.print text).bytes = snprintf (cap + 1) text ++
      0 :: buf.bytes.drop ((snprintf (cap + 1) text).length + 1) := by
  simp [Buffer.print, overwrite]

theorem Buffer.take_print {cap : Nat} (buf : Buffer (cap + 1)) {text : List UInt8}
    (room : text.length ≤ cap) : (buf.print text).bytes.take text.length = text := by
  rw [Buffer.print_bytes, snprintf_of_lt (Nat.lt_succ_of_le room)]
  exact List.take_left

theorem length_decimal_le (value : UInt32) : (render value.toNat).length ≤ 10 := by
  apply Decimal.length_render_le (by decide)
  have := value.toNat_lt
  omega

/-- Ten digits are enough, so `snprintf` cuts nothing off. -/
theorem snprintf_decimal (value : UInt32) :
    snprintf uintBufLen (render value.toNat) = render value.toNat :=
  snprintf_of_lt (Nat.lt_succ_of_le (length_decimal_le value))

theorem buftoll_signedDecimal {v : Int} (h : InLongLong v) : buftoll (signedDecimal v) = .ok v := by
  refine buftoll_eq_ok_iff.2 ⟨?_, h⟩
  rw [signedDecimal]
  split
  · next neg =>
    have denotes : Decimal.Denotes (45 :: render v.natAbs) (-Decimal.value (render v.natAbs)) :=
      .minus _ (Decimal.render_ne_nil _) (Decimal.allDigits_render _)
    have value : Decimal.value (render v.natAbs) = v.natAbs := Decimal.value_render _
    rwa [value, show -(v.natAbs : Int) = v by omega] at denotes
  · next nonneg =>
    have denotes : Decimal.Denotes (render v.natAbs) v.natAbs := Decimal.denotes_render _
    rwa [show (v.natAbs : Int) = v by omega] at denotes

/-- The digits of the magnitude, and a byte for the sign. -/
theorem length_signedDecimal_le {v : Int} {w : Nat} (pos : 0 < w) (h : v.natAbs < 10 ^ w) :
    (signedDecimal v).length ≤ w + 1 := by
  have digits : (render v.natAbs).length ≤ w := Decimal.length_render_le pos h
  rw [signedDecimal]
  split
  · exact Nat.succ_le_succ digits
  · omega

end LibAmp
