import Mathlib.Data.List.Basic

/-!
# Length-prefixed records

The reference for a wire format of boxes: a box is a sequence of records ended by an empty key,
a record is a key and a value, each after its length in two bytes, most significant first. A key
length has to fit the lower byte.
-/

namespace Wire

/-- A key and its value, as they stand on the wire. -/
structure Record where
  key : List UInt8
  value : List UInt8
  deriving DecidableEq, Repr

/-- The lengths a record may have. -/
structure Record.Fits (r : Record) : Prop where
  key_pos : 0 < r.key.length
  key_le : r.key.length ≤ 255
  value_le : r.value.length ≤ 65535

/-! ## Encoding -/

def encodeLength (n : Nat) : List UInt8 := [UInt8.ofNat (n / 256), UInt8.ofNat (n % 256)]

def encodeRecord (r : Record) : List UInt8 :=
  encodeLength r.key.length ++ r.key ++ encodeLength r.value.length ++ r.value

def encodeBox (records : List Record) : List UInt8 := records.flatMap encodeRecord ++ [0, 0]

/-! ## Decoding -/

/-- What stands at the beginning of a stream. -/
inductive Item where
  | endOfBox (rest : List UInt8)
  | record (r : Record) (rest : List UInt8)
  | badKeyLength
  | incomplete

/-- Read one item. A key length whose first byte is not zero is too large whatever follows. -/
def readItem : List UInt8 → Item
  | [] => .incomplete
  | high :: s =>
    if high ≠ 0 then .badKeyLength
    else
      match s with
      | [] => .incomplete
      | low :: s =>
        if low = 0 then .endOfBox s
        else if s.length < low.toNat then .incomplete
        else
          match s.drop low.toNat with
          | valHigh :: valLow :: t =>
            let len := valHigh.toNat * 256 + valLow.toNat
            if t.length < len then .incomplete
            else .record ⟨s.take low.toNat, t.take len⟩ (t.drop len)
          | _ => .incomplete

/-- A decoded stream: the complete boxes, the records of the box it breaks off in, the bytes it
breaks off with, and whether these are a key length that is too large. -/
structure Decoded where
  boxes : List (List Record)
  pending : List Record
  rest : List UInt8
  bad : Bool
  deriving DecidableEq, Repr

/-- The records of the unfinished box, without one that has no value and ends the stream. -/
def Decoded.settled (d : Decoded) : List Record :=
  if d.rest = [] ∧ d.pending.getLast?.map Record.value = some [] then d.pending.dropLast
  else d.pending

/-! ## Reading what was written -/

theorem encodeLength_of_lt {n : Nat} (h : n < 256) : encodeLength n = [0, UInt8.ofNat n] := by
  rw [encodeLength, Nat.div_eq_of_lt h, Nat.mod_eq_of_lt h]
  rfl

theorem encodeLength_toNat (high low : UInt8) :
    encodeLength (high.toNat * 256 + low.toNat) = [high, low] := by
  have := low.toNat_lt
  have hd : (high.toNat * 256 + low.toNat) / 256 = high.toNat := by omega
  have hm : (high.toNat * 256 + low.toNat) % 256 = low.toNat := by omega
  simp [encodeLength, hd, hm]

/-- An end of box is two zero bytes. -/
theorem eq_of_readItem_endOfBox {s rest : List UInt8} (h : readItem s = .endOfBox rest) :
    s = 0 :: 0 :: rest := by
  unfold readItem at h
  grind

/-- A bad key length begins with a byte that is not zero. -/
theorem eq_of_readItem_badKeyLength {s : List UInt8} (h : readItem s = .badKeyLength) :
    ∃ high t, s = high :: t ∧ high ≠ 0 := by
  unfold readItem at h
  grind

/-- A record that was read is what stands there, and fits the format. -/
theorem eq_of_readItem_record {s rest : List UInt8} {r : Record}
    (h : readItem s = .record r rest) : s = encodeRecord r ++ rest ∧ r.Fits := by
  unfold readItem at h
  split at h
  · cases h
  next high s =>
  split at h
  · cases h
  next hhigh =>
  obtain rfl : high = 0 := by simpa using hhigh
  split at h
  · cases h
  next low s =>
  split at h
  · cases h
  next hlow =>
  split at h
  · cases h
  next hkey =>
  split at h
  · next valHigh valLow t hdrop =>
    simp only at h
    split at h
    · cases h
    next hval =>
    obtain ⟨rfl, rfl⟩ : _ = r ∧ _ = rest := by injection h with h h'; exact ⟨h, h'⟩
    have lowRange := low.toNat_lt
    have highRange := valHigh.toNat_lt
    have valLowRange := valLow.toNat_lt
    have lowPos : low.toNat ≠ 0 := fun h => hlow (UInt8.toNat_inj.1 h)
    have keyLen : (s.take low.toNat).length = low.toNat := by rw [List.length_take]; omega
    have valLen : (t.take (valHigh.toNat * 256 + valLow.toNat)).length =
        valHigh.toNat * 256 + valLow.toNat := by rw [List.length_take]; omega
    refine ⟨?_, ⟨by simp only [keyLen]; omega, by simp only [keyLen]; omega,
      by simp only [valLen]; omega⟩⟩
    rw [encodeRecord]
    simp only [keyLen, valLen, encodeLength_toNat, encodeLength_of_lt lowRange, UInt8.ofNat_toNat]
    simp only [List.append_assoc, List.cons_append, List.nil_append, List.take_append_drop]
    rw [← hdrop, List.take_append_drop]
  · cases h

theorem readItem_endOfBox_lt {s rest : List UInt8} (h : readItem s = .endOfBox rest) :
    rest.length < s.length := by
  rw [eq_of_readItem_endOfBox h, List.length_cons, List.length_cons]
  omega

theorem readItem_record_lt {s rest : List UInt8} {r : Record} (h : readItem s = .record r rest) :
    rest.length < s.length := by
  rw [(eq_of_readItem_record h).1, encodeRecord]
  simp only [encodeLength, List.length_append, List.length_cons]
  omega

/-- Decode a stream, with the records already read of the present box. -/
def decode (records : List Record) (s : List UInt8) : Decoded :=
  match _h : readItem s with
  | .endOfBox rest =>
    let d := decode [] rest
    { d with boxes := records :: d.boxes }
  | .record r rest => decode (records ++ [r]) rest
  | .badKeyLength => ⟨[], records, s, true⟩
  | .incomplete => ⟨[], records, s, false⟩
termination_by s.length
decreasing_by
  · exact readItem_endOfBox_lt _h
  · exact readItem_record_lt _h

theorem decode_endOfBox {records : List Record} {s rest : List UInt8}
    (h : readItem s = .endOfBox rest) :
    decode records s = { decode [] rest with boxes := records :: (decode [] rest).boxes } := by
  rw [decode]
  grind

theorem decode_record {records : List Record} {s rest : List UInt8} {r : Record}
    (h : readItem s = .record r rest) :
    decode records s = decode (records ++ [r]) rest := by
  rw [decode]
  grind

theorem decode_badKeyLength {records : List Record} {s : List UInt8}
    (h : readItem s = .badKeyLength) : decode records s = ⟨[], records, s, true⟩ := by
  rw [decode]
  grind

theorem decode_incomplete {records : List Record} {s : List UInt8}
    (h : readItem s = .incomplete) : decode records s = ⟨[], records, s, false⟩ := by
  rw [decode]
  grind

theorem Decoded.mem_pending_of_settled {d : Decoded} {r : Record} (h : r ∈ d.settled) :
    r ∈ d.pending := by
  unfold settled at h
  split at h
  · exact List.dropLast_subset _ h
  · exact h

/-- The records read first are those of the first box, or of the unfinished one. -/
theorem decode_prefix (records : List Record) (s : List UInt8) :
    (∃ more boxes, (decode records s).boxes = (records ++ more) :: boxes) ∨
      ((decode records s).boxes = [] ∧
        ∃ more, (decode records s).pending = records ++ more ∧
          (more = [] → (decode records s).rest = s)) := by
  fun_induction decode records s with
  | case1 records s rest h d ih => exact .inl ⟨[], d.boxes, by simp⟩
  | case2 records s r rest h ih =>
    rcases ih with ⟨more, boxes, hb⟩ | ⟨hb, more, hp, -⟩
    · exact .inl ⟨r :: more, boxes, by simp [hb]⟩
    · exact .inr ⟨hb, r :: more, by simp [hp], by simp⟩
  | case3 records s h => exact .inr ⟨rfl, [], by simp, fun _ => rfl⟩
  | case4 records s h => exact .inr ⟨rfl, [], by simp, fun _ => rfl⟩

/-- A record that is not the end of a stream by itself is settled, whatever follows it. -/
theorem mem_settled_decode {records : List Record} {r : Record} {s : List UInt8}
    (more : r.value ≠ [] ∨ s ≠ []) (none : (decode (records ++ [r]) s).boxes = []) :
    r ∈ (decode (records ++ [r]) s).settled := by
  rcases decode_prefix (records ++ [r]) s with ⟨tail, boxes, hb⟩ | ⟨-, tail, hp, hrest⟩
  · rw [none] at hb
    cases hb
  unfold Decoded.settled
  rw [hp]
  rcases List.eq_nil_or_concat tail with rfl | ⟨init, last, rfl⟩
  · rw [hrest rfl]
    have keep : ¬ (s = [] ∧ (records ++ [r] ++ []).getLast?.map Record.value = some []) := by
      simp only [List.append_nil, List.getLast?_concat, Option.map_some, Option.some.injEq]
      exact fun ⟨ends, noValue⟩ => more.elim (· noValue) (· ends)
    rw [if_neg keep]
    simp
  · split
    · simp [← List.append_assoc]
    · simp

end Wire
