import LibAmp.BoxMap
import LibAmp.Integers

/-!
# Dates and times (`types.c`)

A date is stored as 32 bytes of text, `2011-06-20T05:10:15.100000+05:30`. The encoder prints it
and the decoder reads nine numbers at fixed offsets, and the sign between them.

## Main results

* `decodeDatetime_eq_ok_iff` — the decoder, field by field.
* `datetime_format_iff` — the decoder accepts exactly the format when the separators are in place
  and no field starts with a sign.
* `datetime_round_trip` — what is encoded is decoded again.
-/

namespace LibAmp

open Decimal

/-- `AMP_DateTime_T`. -/
structure AmpDateTime where
  year : Int
  month : Int
  day : Int
  hour : Int
  min : Int
  sec : Int
  msec : Int
  utcOffset : Int
  deriving DecidableEq, Repr

def ampDtSize : Nat := 32

/-! ## Encoding -/

/-- `%0*d`: zeros up to the width, after the sign. -/
def paddedDecimal (width : Nat) (v : Int) : List UInt8 :=
  if v < 0 then 45 :: pad (width - 1) v.natAbs else pad width v.natAbs

/-- The text of the format string. -/
def datetimeText (value : AmpDateTime) (sign : UInt8) (offsetHour offsetMin : Int) : List UInt8 :=
  paddedDecimal 4 value.year ++ 45 :: paddedDecimal 2 value.month ++
    45 :: paddedDecimal 2 value.day ++ 84 :: paddedDecimal 2 value.hour ++
    58 :: paddedDecimal 2 value.min ++ 58 :: paddedDecimal 2 value.sec ++
    46 :: paddedDecimal 6 value.msec ++ sign :: paddedDecimal 2 offsetHour ++
    58 :: paddedDecimal 2 offsetMin

/-- The array that is printed into is static: it comes with its old bytes and is handed back. -/
def ampPutDatetime (mem : Mem) (buf : Buffer (ampDtSize + 1)) (box : Option AmpBox)
    (key : CString) (value : AmpDateTime) :
    Except Fault (PutResult × Buffer (ampDtSize + 1)) :=
  if value.year < 1 ∨ value.year > 9999 ∨ value.month < 1 ∨ value.month > 12 ∨
      value.day < 1 ∨ value.day > 31 ∨ value.hour < 0 ∨ value.hour > 23 ∨
      value.min < 0 ∨ value.min > 59 ∨ value.sec < 0 ∨ value.sec > 59 ∨
      value.msec < 0 ∨ value.msec > 999999 ∨
      value.utcOffset < -1439 ∨ value.utcOffset > 1439 then
    .ok (⟨ampEncodeError, box, mem⟩, buf)
  else
    let offsetHour := value.utcOffset.tdiv 60
    let offsetMin := value.utcOffset.tmod 60
    let buf :=
      if value.utcOffset ≥ 0 then buf.print (datetimeText value 43 offsetHour offsetMin)
      else buf.print (datetimeText value 45 (-offsetHour) (-offsetMin))
    (ampPutBytes mem box key buf.bytes ampDtSize).map fun r => (r, buf)

/-! ## Decoding -/

/-- The `len` bytes at `buf + off`. -/
def bytesAt (buf : List UInt8) (off len : Nat) : List UInt8 := (buf.drop off).take len

/-- What `amp_get_datetime` does with the bytes it finds. The sign is looked at last. -/
def decodeDatetime (buf : List UInt8) : Except AmpError AmpDateTime :=
  if buf.length ≠ 32 then .error ampDecodeError
  else do
    let year ← buftollRange (bytesAt buf 0 4) 1 9999
    let month ← buftollRange (bytesAt buf 5 2) 1 12
    let day ← buftollRange (bytesAt buf 8 2) 1 31
    let hour ← buftollRange (bytesAt buf 11 2) 0 23
    let min ← buftollRange (bytesAt buf 14 2) 0 59
    let sec ← buftollRange (bytesAt buf 17 2) 0 59
    let msec ← buftollRange (bytesAt buf 20 6) 0 999999
    let offsetHour ← buftollRange (bytesAt buf 27 2) 0 23
    let offsetMin ← buftollRange (bytesAt buf 30 2) 0 59
    if buf[26]? = some 43 then
      .ok ⟨year, month, day, hour, min, sec, msec, offsetHour * 60 + offsetMin⟩
    else if buf[26]? = some 45 then
      .ok ⟨year, month, day, hour, min, sec, msec, offsetHour * -60 - offsetMin⟩
    else .error ampDecodeError

def ampGetDatetime (box : AmpBox) (key : CString) : Except AmpError AmpDateTime :=
  match ampGetBytes box key with
  | .error err => .error err
  | .ok buf => decodeDatetime buf

/-! ## The decoder, field by field -/

/-- A number at a fixed place in the text, and its range. -/
structure Field where
  off : Nat
  len : Nat
  lo : Int
  hi : Int

namespace Field

def year : Field := ⟨0, 4, 1, 9999⟩
def month : Field := ⟨5, 2, 1, 12⟩
def day : Field := ⟨8, 2, 1, 31⟩
def hour : Field := ⟨11, 2, 0, 23⟩
def min : Field := ⟨14, 2, 0, 59⟩
def sec : Field := ⟨17, 2, 0, 59⟩
def msec : Field := ⟨20, 6, 0, 999999⟩
def offsetHour : Field := ⟨27, 2, 0, 23⟩
def offsetMin : Field := ⟨30, 2, 0, 59⟩

def all : List Field := [year, month, day, hour, min, sec, msec, offsetHour, offsetMin]

/-- The bytes of the field in a text. -/
def bytes (f : Field) (v : List UInt8) : List UInt8 := bytesAt v f.off f.len

/-- The field holds a numeral, signed or not, for a number of its range. -/
def Reads (f : Field) (v : List UInt8) (n : Int) : Prop :=
  Denotes (f.bytes v) n ∧ f.lo ≤ n ∧ n ≤ f.hi

end Field

theorem bind_eq_ok_iff {ε α β : Type} {x : Except ε α} {f : α → Except ε β} {b : β} :
    (x >>= f) = .ok b ↔ ∃ a, x = .ok a ∧ f a = .ok b := by
  cases x with
  | error err => exact iff_of_false nofun (by rintro ⟨_, h, -⟩; cases h)
  | ok a => exact ⟨fun h => ⟨a, rfl, h⟩, by rintro ⟨_, ⟨⟩, h⟩; exact h⟩

theorem decodeDatetime_eq_ok_iff {v : List UInt8} {dt : AmpDateTime} :
    decodeDatetime v = .ok dt ↔
      v.length = 32 ∧ Field.year.Reads v dt.year ∧ Field.month.Reads v dt.month ∧
      Field.day.Reads v dt.day ∧ Field.hour.Reads v dt.hour ∧ Field.min.Reads v dt.min ∧
      Field.sec.Reads v dt.sec ∧ Field.msec.Reads v dt.msec ∧
      ∃ h m, Field.offsetHour.Reads v h ∧ Field.offsetMin.Reads v m ∧
        (v[26]? = some 43 ∧ dt.utcOffset = h * 60 + m ∨
          v[26]? = some 45 ∧ dt.utcOffset = -(h * 60 + m)) := by
  have read (f : Field) {n : Int} (hlo : llongMin ≤ f.lo) (hhi : f.hi ≤ llongMax) :
      buftollRange (bytesAt v f.off f.len) f.lo f.hi = .ok n ↔ f.Reads v n :=
    buftollRange_eq_ok_iff hlo hhi
  have year {n : Int} := read .year (n := n) (by decide) (by decide)
  have month {n : Int} := read .month (n := n) (by decide) (by decide)
  have day {n : Int} := read .day (n := n) (by decide) (by decide)
  have hour {n : Int} := read .hour (n := n) (by decide) (by decide)
  have min {n : Int} := read .min (n := n) (by decide) (by decide)
  have sec {n : Int} := read .sec (n := n) (by decide) (by decide)
  have msec {n : Int} := read .msec (n := n) (by decide) (by decide)
  have offsetHour {n : Int} := read .offsetHour (n := n) (by decide) (by decide)
  have offsetMin {n : Int} := read .offsetMin (n := n) (by decide) (by decide)
  simp only [Field.year, Field.month, Field.day, Field.hour, Field.min, Field.sec, Field.msec,
    Field.offsetHour, Field.offsetMin] at *
  by_cases length : v.length = 32
  · simp only [decodeDatetime, length, ne_eq, not_true_eq_false, ↓reduceIte, bind_eq_ok_iff, year,
      month, day, hour, min, sec, msec, offsetHour, offsetMin, true_and]
    constructor
    · rintro ⟨y, hy, mo, hmo, d, hd, h, hh, mi, hmi, s, hs, ms, hms, oh, hoh, om, hom, result⟩
      split at result
      · next plus =>
        cases result
        exact ⟨hy, hmo, hd, hh, hmi, hs, hms, oh, om, hoh, hom, .inl ⟨plus, rfl⟩⟩
      · split at result
        · next minus =>
          cases result
          exact ⟨hy, hmo, hd, hh, hmi, hs, hms, oh, om, hoh, hom, .inr ⟨minus, by ring⟩⟩
        · cases result
    · rintro ⟨hy, hmo, hd, hh, hmi, hs, hms, oh, om, hoh, hom, sign⟩
      refine ⟨_, hy, _, hmo, _, hd, _, hh, _, hmi, _, hs, _, hms, oh, hoh, om, hom, ?_⟩
      rcases sign with ⟨plus, offset⟩ | ⟨minus, offset⟩
      · rw [if_pos plus, ← offset]
      · have negated : oh * -60 - om = dt.utcOffset := by
          rw [offset]
          ring
        rw [if_neg (by simp [minus]), if_pos minus, negated]
  · exact iff_of_false (by rw [decodeDatetime, if_pos length]; nofun) fun h => length h.1

/-! ## The format -/

/-- The positions of the separators, and what stands there. -/
def separators : List (Nat × UInt8) :=
  [(4, 45), (7, 45), (10, 84), (13, 58), (16, 58), (19, 46), (29, 58)]

/-- `YYYY-MM-DDTHH:MM:SS.mmmmmm`, a sign and `HH:MM`, every number in its range. -/
structure IsDatetime (v : List UInt8) : Prop where
  length_eq : v.length = 32
  sign : v[26]? = some 43 ∨ v[26]? = some 45
  separated : ∀ p ∈ separators, v[p.1]? = some p.2
  digits : ∀ f ∈ Field.all, AllDigits (f.bytes v)
  inRange : ∀ f ∈ Field.all, f.lo ≤ value (f.bytes v) ∧ value (f.bytes v) ≤ f.hi

/-- Any separators will do, and a sign and fewer digits in the place of a number. -/
structure IsLooseDatetime (v : List UInt8) : Prop where
  length_eq : v.length = 32
  sign : v[26]? = some 43 ∨ v[26]? = some 45
  reads : ∀ f ∈ Field.all, ∃ n, f.Reads v n

/-- The separators are in place and no number starts with a sign. -/
structure IsTidy (v : List UInt8) : Prop where
  separated : ∀ p ∈ separators, v[p.1]? = some p.2
  unsigned : ∀ f ∈ Field.all, (f.bytes v).head? ≠ some 43 ∧ (f.bytes v).head? ≠ some 45

theorem accepts_iff_isLooseDatetime {v : List UInt8} :
    (∃ dt, decodeDatetime v = .ok dt) ↔ IsLooseDatetime v := by
  constructor
  · rintro ⟨dt, h⟩
    obtain ⟨length, hy, hmo, hd, hh, hmi, hs, hms, oh, om, hoh, hom, sign⟩ :=
      decodeDatetime_eq_ok_iff.1 h
    refine ⟨length, sign.imp And.left And.left, ?_⟩
    simp only [Field.all, List.forall_mem_cons]
    exact ⟨⟨_, hy⟩, ⟨_, hmo⟩, ⟨_, hd⟩, ⟨_, hh⟩, ⟨_, hmi⟩, ⟨_, hs⟩, ⟨_, hms⟩, ⟨_, hoh⟩, ⟨_, hom⟩,
      nofun⟩
  · rintro ⟨length, sign, reads⟩
    simp only [Field.all, List.forall_mem_cons] at reads
    obtain ⟨⟨y, hy⟩, ⟨mo, hmo⟩, ⟨d, hd⟩, ⟨h, hh⟩, ⟨mi, hmi⟩, ⟨s, hs⟩, ⟨ms, hms⟩, ⟨oh, hoh⟩,
      ⟨om, hom⟩, -⟩ := reads
    rcases sign with plus | minus
    · exact ⟨⟨y, mo, d, h, mi, s, ms, oh * 60 + om⟩, decodeDatetime_eq_ok_iff.2
        ⟨length, hy, hmo, hd, hh, hmi, hs, hms, oh, om, hoh, hom, .inl ⟨plus, rfl⟩⟩⟩
    · exact ⟨⟨y, mo, d, h, mi, s, ms, -(oh * 60 + om)⟩, decodeDatetime_eq_ok_iff.2
        ⟨length, hy, hmo, hd, hh, hmi, hs, hms, oh, om, hoh, hom, .inr ⟨minus, rfl⟩⟩⟩

theorem Field.bytes_ne_nil {f : Field} {v : List UInt8} (hf : f ∈ Field.all) (hv : v.length = 32) :
    f.bytes v ≠ [] := by
  have inside : ∀ f ∈ Field.all, f.off + f.len ≤ 32 ∧ 0 < f.len := by decide
  have := inside f hf
  intro h
  have length := congrArg List.length h
  simp only [Field.bytes, bytesAt, List.length_take, List.length_drop, List.length_nil] at length
  omega

/-- The format is what the decoder accepts, among the tidy texts. -/
theorem isDatetime_iff {v : List UInt8} : IsDatetime v ↔ IsLooseDatetime v ∧ IsTidy v := by
  constructor
  · intro h
    have tidy : IsTidy v := ⟨h.separated, fun f hf => (h.digits f hf).unsigned⟩
    refine ⟨⟨h.length_eq, h.sign, fun f hf => ?_⟩, tidy⟩
    have denotes : Denotes (f.bytes v) (value (f.bytes v)) :=
      .plain _ (Field.bytes_ne_nil hf h.length_eq) (h.digits f hf)
    exact ⟨_, denotes, h.inRange f hf⟩
  · rintro ⟨loose, tidy⟩
    have digits : ∀ f ∈ Field.all, AllDigits (f.bytes v) := by
      intro f hf
      obtain ⟨n, denotes, -⟩ := loose.reads f hf
      exact denotes.allDigits (tidy.unsigned f hf)
    refine ⟨loose.length_eq, loose.sign, tidy.separated, digits, fun f hf => ?_⟩
    obtain ⟨n, denotes, range⟩ := loose.reads f hf
    rw [denotes.value_of_allDigits (digits f hf)] at range
    exact range

/-! ## Different texts for one date -/

theorem getElem?_bytesAt {v : List UInt8} {off len i : Nat} (h : i < len) :
    (bytesAt v off len)[i]? = v[off + i]? := by
  rw [bytesAt, List.getElem?_take_of_lt h, List.getElem?_drop]

/-- Every position belongs to a field, to a separator or to the sign. -/
theorem positions (i : Nat) (h : i < 32) :
    i = 26 ∨ (∃ f ∈ Field.all, f.off ≤ i ∧ i < f.off + f.len) ∨ ∃ p ∈ separators, p.1 = i := by
  revert i
  decide

/-- In the format, the numbers and the sign determine the text. -/
theorem IsDatetime.getElem?_eq {v w : List UInt8} (hv : IsDatetime v) (hw : IsDatetime w)
    (same : ∀ f ∈ Field.all, value (f.bytes v) = value (f.bytes w)) {i : Nat} (hi : i ≠ 26) :
    v[i]? = w[i]? := by
  by_cases inside : i < 32
  · rcases positions i inside with sign | ⟨f, hf, low, high⟩ | ⟨p, hp, rfl⟩
    · exact absurd sign hi
    · have length : (f.bytes v).length = (f.bytes w).length := by
        simp only [Field.bytes, bytesAt, List.length_take, List.length_drop, hv.length_eq,
          hw.length_eq]
      have bytes : f.bytes v = f.bytes w :=
        value_injective (hv.digits f hf) (hw.digits f hf) length (same f hf)
      have index : f.off + (i - f.off) = i := by omega
      have below : i - f.off < f.len := by omega
      rw [← index, ← getElem?_bytesAt below, ← getElem?_bytesAt below]
      exact congrArg (fun bs => bs[i - f.off]?) bytes
    · rw [hv.separated p hp, hw.separated p hp]
  · rw [List.getElem?_eq_none (by rw [hv.length_eq]; omega),
      List.getElem?_eq_none (by rw [hw.length_eq]; omega)]

theorem IsDatetime.value_eq {v : List UInt8} (h : IsDatetime v) {f : Field} (hf : f ∈ Field.all)
    {n : Int} (reads : f.Reads v n) : (value (f.bytes v) : Int) = n :=
  (reads.1.value_of_allDigits (h.digits f hf)).symm

/-- Two tidy texts for one date are the same, apart from the sign of a zero offset. -/
theorem decodeDatetime_injective {v w : List UInt8} {dt : AmpDateTime} (tidyv : IsTidy v)
    (tidyw : IsTidy w) (readv : decodeDatetime v = .ok dt) (readw : decodeDatetime w = .ok dt) :
    v = w ∨ dt.utcOffset = 0 ∧ v.set 26 43 = w.set 26 43 := by
  have hv : IsDatetime v := isDatetime_iff.2 ⟨accepts_iff_isLooseDatetime.1 ⟨dt, readv⟩, tidyv⟩
  have hw : IsDatetime w := isDatetime_iff.2 ⟨accepts_iff_isLooseDatetime.1 ⟨dt, readw⟩, tidyw⟩
  obtain ⟨-, y, mo, d, h, mi, s, ms, oh, om, hoh, hom, signv⟩ := decodeDatetime_eq_ok_iff.1 readv
  obtain ⟨-, y', mo', d', h', mi', s', ms', oh', om', hoh', hom', signw⟩ :=
    decodeDatetime_eq_ok_iff.1 readw
  have agree {f : Field} (hf : f ∈ Field.all) {n : Int} (left : f.Reads v n) (right : f.Reads w n) :
      value (f.bytes v) = value (f.bytes w) :=
    Int.ofNat_inj.1 ((hv.value_eq hf left).trans (hw.value_eq hf right).symm)
  have offsets : oh = oh' ∧ om = om' := by
    obtain ⟨-, lo, hi⟩ := hoh
    obtain ⟨-, lo', hi'⟩ := hoh'
    obtain ⟨-, lom, him⟩ := hom
    obtain ⟨-, lom', him'⟩ := hom'
    simp only [Field.offsetHour, Field.offsetMin] at *
    omega
  obtain ⟨rfl, rfl⟩ := offsets
  have same : ∀ f ∈ Field.all, value (f.bytes v) = value (f.bytes w) := by
    intro f hf
    have which := hf
    simp only [Field.all, List.mem_cons, List.not_mem_nil, or_false] at which
    rcases which with rfl | rfl | rfl | rfl | rfl | rfl | rfl | rfl | rfl
    exacts [agree hf y y', agree hf mo mo', agree hf d d', agree hf h h', agree hf mi mi',
      agree hf s s', agree hf ms ms', agree hf hoh hoh', agree hf hom hom']
  have apart {i : Nat} (hi : i ≠ 26) : v[i]? = w[i]? := hv.getElem?_eq hw same hi
  by_cases sign : v[26]? = w[26]?
  · refine .inl (List.ext_getElem? fun i => ?_)
    by_cases hi : i = 26
    · rw [hi, sign]
    · exact apart hi
  · have zero : oh * 60 + om = 0 := by
      rcases signv with ⟨left, offsetv⟩ | ⟨left, offsetv⟩ <;>
        rcases signw with ⟨right, offsetw⟩ | ⟨right, offsetw⟩
      · exact absurd (left.trans right.symm) sign
      · omega
      · omega
      · exact absurd (left.trans right.symm) sign
    refine .inr ⟨by omega, List.ext_getElem? fun i => ?_⟩
    by_cases hi : i = 26
    · simp [hi, hv.length_eq, hw.length_eq]
    · rw [List.getElem?_set_ne (Ne.symm hi), List.getElem?_set_ne (Ne.symm hi), apart hi]

theorem ampGetDatetime_eq {box : AmpBox} (wf : box.WF) {key : CString} {v : List UInt8}
    (stored : box.toMap.lookup key = some v) : ampGetDatetime box key = decodeDatetime v := by
  rw [ampGetDatetime, ampGetBytes, wf.getBuf, stored]

/-- The decoder accepts exactly the format unless a text slips through whose separators are
wrong or whose numbers are signed. Other texts are told apart. -/
theorem datetime_format_iff {box box' : AmpBox} (wf : box.WF) (wf' : box'.WF)
    {key key' : CString} {v w : List UInt8} (stored : box.toMap.lookup key = some v)
    (stored' : box'.toMap.lookup key' = some w) :
    (((∃ dt, ampGetDatetime box key = .ok dt) ↔ IsDatetime v) ↔ (IsLooseDatetime v → IsTidy v)) ∧
      ((IsLooseDatetime v → IsTidy v) → (IsLooseDatetime w → IsTidy w) →
        ∀ dt, ampGetDatetime box key = .ok dt → ampGetDatetime box' key' = .ok dt →
          v = w ∨ dt.utcOffset = 0 ∧ v.set 26 43 = w.set 26 43) := by
  rw [ampGetDatetime_eq wf stored, ampGetDatetime_eq wf' stored']
  constructor
  · rw [accepts_iff_isLooseDatetime, isDatetime_iff]
    tauto
  · intro tidyv tidyw dt readv readw
    have loosev : IsLooseDatetime v := accepts_iff_isLooseDatetime.1 ⟨dt, readv⟩
    have loosew : IsLooseDatetime w := accepts_iff_isLooseDatetime.1 ⟨dt, readw⟩
    exact decodeDatetime_injective (tidyv loosev) (tidyw loosew) readv readw

theorem lookup_single {key : CString} {value : List UInt8} (storable : Storable key value) :
    (AmpBox.single key value).toMap.lookup key = some value := by
  rw [(AmpBox.wf_single storable).2, Finmap.lookup_insert]

theorem datetime_format_iff_sample :
    let v := ascii "2011-06-20T05:10:15.100000+05:30"
    (∃ dt, ampGetDatetime (AmpBox.single Key.ask v) Key.ask = .ok dt) ↔ IsDatetime v := by
  intro v
  have storable : Storable Key.ask v := by decide
  have wf : (AmpBox.single Key.ask v).WF := (AmpBox.wf_single storable).1
  have stored := lookup_single storable
  exact (datetime_format_iff wf wf stored stored).1.2 fun _ => ⟨by decide, by decide⟩

/-- Other separators, and a plus sign in front of the year, go unnoticed. -/
theorem datetime_format_too_loose :
    ¬ ∀ {box : AmpBox} (_ : box.WF) {key : CString} {v : List UInt8}
      (_ : box.toMap.lookup key = some v),
      (∃ dt, ampGetDatetime box key = .ok dt) ↔ IsDatetime v := by
  intro claim
  let v := ascii "+201x06x20x05x10x15x100000+05x30"
  have storable : Storable Key.ask v := by decide
  let dt : AmpDateTime := ⟨201, 6, 20, 5, 10, 15, 100000, 330⟩
  have accepted : decodeDatetime v = .ok dt := by decide
  have format : IsDatetime v := by
    refine (claim (AmpBox.wf_single storable).1 (lookup_single storable)).1 ⟨dt, ?_⟩
    rw [ampGetDatetime_eq (AmpBox.wf_single storable).1 (lookup_single storable)]
    exact accepted
  exact absurd (format.separated (4, 45) (by decide)) (by decide)

/-! ## Encoding and decoding again -/

/-- The documented range of every field. -/
structure AmpDateTime.InRange (dt : AmpDateTime) : Prop where
  year : 1 ≤ dt.year ∧ dt.year ≤ 9999
  month : 1 ≤ dt.month ∧ dt.month ≤ 12
  day : 1 ≤ dt.day ∧ dt.day ≤ 31
  hour : 0 ≤ dt.hour ∧ dt.hour ≤ 23
  min : 0 ≤ dt.min ∧ dt.min ≤ 59
  sec : 0 ≤ dt.sec ∧ dt.sec ≤ 59
  msec : 0 ≤ dt.msec ∧ dt.msec ≤ 999999
  utcOffset : -1439 ≤ dt.utcOffset ∧ dt.utcOffset ≤ 1439

/-- A number from a range that fits the width is printed in that width. -/
theorem paddedDecimal_spec {w : Nat} {lo hi v : Int} (fits : 0 < w ∧ 0 ≤ lo ∧ hi < 10 ^ w)
    (range : lo ≤ v ∧ v ≤ hi) :
    (paddedDecimal w v).length = w ∧ Denotes (paddedDecimal w v) v := by
  have nonneg : 0 ≤ v := fits.2.1.trans range.1
  have small : v.natAbs < 10 ^ w := by
    have below : v < 10 ^ w := range.2.trans_lt fits.2.2
    zify
    rwa [abs_of_nonneg nonneg]
  have denotes : Denotes (pad w v.natAbs) v.natAbs := denotes_pad w v.natAbs
  rw [paddedDecimal, if_neg (not_lt.2 nonneg)]
  rw [Int.natAbs_of_nonneg nonneg] at denotes
  exact ⟨length_pad fits.1 small, denotes⟩

/-- Where the pieces of the text stand. -/
theorem layout {y mo d h mi s ms oh om : List UInt8} (sign : UInt8) (hy : y.length = 4)
    (hmo : mo.length = 2) (hd : d.length = 2) (hh : h.length = 2) (hmi : mi.length = 2)
    (hs : s.length = 2) (hms : ms.length = 6) (hoh : oh.length = 2) (hom : om.length = 2) :
    let v := y ++ 45 :: mo ++ 45 :: d ++ 84 :: h ++ 58 :: mi ++ 58 :: s ++ 46 :: ms ++
      sign :: oh ++ 58 :: om
    v.length = 32 ∧ v[26]? = some sign ∧ bytesAt v 0 4 = y ∧ bytesAt v 5 2 = mo ∧
      bytesAt v 8 2 = d ∧ bytesAt v 11 2 = h ∧ bytesAt v 14 2 = mi ∧ bytesAt v 17 2 = s ∧
      bytesAt v 20 6 = ms ∧ bytesAt v 27 2 = oh ∧ bytesAt v 30 2 = om := by
  simp [bytesAt, List.drop_append, List.drop_of_length_le, List.take_of_length_le, hy, hmo, hd,
    hh, hmi, hs, hms, hoh, hom]

/-- The text of a date in range reads back, whatever sign and offset it is printed with. -/
theorem decodeDatetime_datetimeText {dt : AmpDateTime} (range : dt.InRange) {sign : UInt8}
    {h m : Int} (hourRange : 0 ≤ h ∧ h ≤ 23) (minRange : 0 ≤ m ∧ m ≤ 59)
    (offset : sign = 43 ∧ dt.utcOffset = h * 60 + m ∨ sign = 45 ∧ dt.utcOffset = -(h * 60 + m)) :
    (datetimeText dt sign h m).length = 32 ∧
      decodeDatetime (datetimeText dt sign h m) = .ok dt := by
  obtain ⟨year, month, day, hour, min, sec, msec, -⟩ := range
  obtain ⟨ly, dy⟩ := paddedDecimal_spec (w := 4) (by decide) year
  obtain ⟨lmo, dmo⟩ := paddedDecimal_spec (w := 2) (by decide) month
  obtain ⟨ld, dd⟩ := paddedDecimal_spec (w := 2) (by decide) day
  obtain ⟨lh, dh⟩ := paddedDecimal_spec (w := 2) (by decide) hour
  obtain ⟨lmi, dmi⟩ := paddedDecimal_spec (w := 2) (by decide) min
  obtain ⟨ls, ds⟩ := paddedDecimal_spec (w := 2) (by decide) sec
  obtain ⟨lms, dms⟩ := paddedDecimal_spec (w := 6) (by decide) msec
  obtain ⟨loh, doh⟩ := paddedDecimal_spec (w := 2) (by decide) hourRange
  obtain ⟨lom, dom⟩ := paddedDecimal_spec (w := 2) (by decide) minRange
  have parts := layout sign ly lmo ld lh lmi ls lms loh lom
  rw [← datetimeText] at parts
  obtain ⟨length, signAt, y, mo, d, hr, mi, s, ms, oh, om⟩ := parts
  refine ⟨length, decodeDatetime_eq_ok_iff.2 ⟨length, ?_⟩⟩
  simp only [Field.Reads, Field.bytes, Field.year, Field.month, Field.day, Field.hour, Field.min,
    Field.sec, Field.msec, Field.offsetHour, Field.offsetMin, y, mo, d, hr, mi, s, ms, oh, om,
    signAt, Option.some.injEq]
  exact ⟨⟨dy, year⟩, ⟨dmo, month⟩, ⟨dd, day⟩, ⟨dh, hour⟩, ⟨dmi, min⟩, ⟨ds, sec⟩, ⟨dms, msec⟩,
    h, m, ⟨doh, hourRange⟩, ⟨dom, minRange⟩, offset⟩

/-- Printing a text of 32 bytes and storing it. -/
theorem AmpBox.WF.putPrinted {box : AmpBox} (wf : box.WF) {key : CString}
    (valid : 0 < strlen key ∧ strlen key ≤ maxKeyLength) (buf : Buffer (ampDtSize + 1))
    {text : List UInt8} (length : text.length = ampDtSize) :
    ∃ box', ampPutBytes plenty (some box) key (buf.print text).bytes ampDtSize =
        .ok ⟨0, some box', plenty⟩ ∧
      box'.WF ∧ box'.toMap = box.toMap.insert key text := by
  have room : ((ampDtSize : Nat) : Int) ≤ (buf.print text).bytes.length := by
    rw [(buf.print text).length_eq]
    decide
  have whole := Buffer.take_print buf length.le
  rw [length] at whole
  obtain ⟨box', put, wf', map⟩ := wf.putBuf plenty key room
  rw [BoxMap.put_plenty_take _ valid.1 valid.2 (by decide), whole] at put map
  exact ⟨box', put, wf', map⟩

/-- The hour and the minute of an offset, as they are printed. -/
theorem offset_parts {v : Int} (range : 0 ≤ v ∧ v ≤ 1439) :
    (0 ≤ v.tdiv 60 ∧ v.tdiv 60 ≤ 23) ∧ (0 ≤ v.tmod 60 ∧ v.tmod 60 ≤ 59) ∧
      v = v.tdiv 60 * 60 + v.tmod 60 := by
  rw [Int.tdiv_eq_ediv_of_nonneg range.1, Int.tmod_eq_emod_of_nonneg range.1]
  omega

theorem ampPutDatetime_refused {dt : AmpDateTime} (out : ¬ dt.InRange) (mem : Mem)
    (buf : Buffer (ampDtSize + 1)) (box : Option AmpBox) (key : CString) :
    ampPutDatetime mem buf box key dt = .ok (⟨ampEncodeError, box, mem⟩, buf) := by
  refine if_pos ?_
  by_contra inside
  exact out ⟨by omega, by omega, by omega, by omega, by omega, by omega, by omega, by omega⟩

/-- A date in range is printed with the sign of its offset and the magnitudes of the parts. -/
theorem ampPutDatetime_printed {dt : AmpDateTime} (range : dt.InRange) (mem : Mem)
    (buf : Buffer (ampDtSize + 1)) (box : Option AmpBox) (key : CString) :
    ∃ sign h m, ampPutDatetime mem buf box key dt =
        (ampPutBytes mem box key (buf.print (datetimeText dt sign h m)).bytes ampDtSize).map
          (fun r => (r, buf.print (datetimeText dt sign h m))) ∧
      (0 ≤ h ∧ h ≤ 23) ∧ (0 ≤ m ∧ m ≤ 59) ∧
      (sign = 43 ∧ dt.utcOffset = h * 60 + m ∨ sign = 45 ∧ dt.utcOffset = -(h * 60 + m)) := by
  have offsetRange := range.utcOffset
  have printed : ampPutDatetime mem buf box key dt = _ := if_neg fun out => by
    obtain ⟨year, month, day, hour, min, sec, msec, utcOffset⟩ := range
    omega
  rw [printed]
  dsimp only
  by_cases nonneg : dt.utcOffset ≥ 0
  · obtain ⟨hour, min, offset⟩ := offset_parts ⟨nonneg, offsetRange.2⟩
    exact ⟨43, _, _, by rw [if_pos nonneg], hour, min, .inl ⟨rfl, offset⟩⟩
  · have opposite : 0 ≤ -dt.utcOffset ∧ -dt.utcOffset ≤ 1439 := by omega
    obtain ⟨hour, min, offset⟩ := offset_parts opposite
    rw [Int.neg_tdiv] at hour offset
    rw [Int.neg_tmod] at min offset
    exact ⟨45, _, _, by rw [if_neg nonneg], hour, min, .inr ⟨rfl, by omega⟩⟩

/-- A date out of range is refused, with the box unchanged; any other is stored in 32 bytes, from
which the decoder restores every field. -/
theorem datetime_round_trip {box : AmpBox} (wf : box.WF) {key : CString}
    (valid : 0 < strlen key ∧ strlen key ≤ maxKeyLength) (buf : Buffer (ampDtSize + 1))
    (dt : AmpDateTime) :
    (ampPutDatetime plenty buf (some box) key dt =
        .ok (⟨ampEncodeError, some box, plenty⟩, buf) ↔ ¬ dt.InRange) ∧
      (dt.InRange → ∃ box' buf' text, ampPutDatetime plenty buf (some box) key dt =
          .ok (⟨0, some box', plenty⟩, buf') ∧
        text.length = 32 ∧ box'.toMap = box.toMap.insert key text ∧
        ampGetDatetime box' key = .ok dt) := by
  have stored (range : dt.InRange) :
      ∃ box' buf' text, ampPutDatetime plenty buf (some box) key dt =
          .ok (⟨0, some box', plenty⟩, buf') ∧
        text.length = 32 ∧ box'.toMap = box.toMap.insert key text ∧
        ampGetDatetime box' key = .ok dt := by
    obtain ⟨sign, h, m, printed, hour, min, offset⟩ :=
      ampPutDatetime_printed range plenty buf (some box) key
    obtain ⟨length, decoded⟩ := decodeDatetime_datetimeText range hour min offset
    obtain ⟨box', put, wf', map⟩ := wf.putPrinted valid buf length
    refine ⟨box', _, _, by rw [printed, put]; rfl, length, map, ?_⟩
    rw [ampGetDatetime_eq wf' (by rw [map, Finmap.lookup_insert]), decoded]
  refine ⟨⟨?_, fun out => ampPutDatetime_refused out plenty buf (some box) key⟩, stored⟩
  intro failed range
  obtain ⟨box', buf', text, put, -⟩ := stored range
  rw [put] at failed
  cases failed

/-- Half an hour west: an offset whose hour is zero keeps its sign. -/
theorem datetime_round_trip_half_hour :
    ∃ box' buf', ampPutDatetime plenty (Buffer.zeros 33) (some (AmpBox.new hashString)) Key.ask
        ⟨2011, 6, 20, 5, 10, 15, 100000, -30⟩ = .ok (⟨0, some box', plenty⟩, buf') ∧
      ampGetDatetime box' Key.ask = .ok ⟨2011, 6, 20, 5, 10, 15, 100000, -30⟩ := by
  obtain ⟨box', buf', text, put, -, -, get⟩ := (datetime_round_trip (AmpBox.wf_new hashString)
    (show 0 < strlen Key.ask ∧ strlen Key.ask ≤ maxKeyLength by decide) (Buffer.zeros 33)
    ⟨2011, 6, 20, 5, 10, 15, 100000, -30⟩).2 (by constructor <;> decide)
  exact ⟨box', buf', put, get⟩

end LibAmp
