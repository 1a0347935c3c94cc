import LibAmp.Decoder

/-!
# The parser computes the decoder

`Parser.At` relates the fields of a proto to a phase of the decoder: the invariant of the parser,
one clause for each state. Every turn of the loop of `amp_parse_box` keeps it and takes the
decoder over the bytes it consumes, so `amp_consume_bytes` decodes its buffer byte by byte
(`Represents.consume`), never faults by itself and never runs out of fuel.
-/

namespace LibAmp

open WhileLoop (Turn Outcome TurnOutcome)

/-! ## The invariant -/

/-- A complete key is held, with its terminator. -/
structure Parser.HoldsKey (p : Parser) (key : List UInt8) : Prop where
  keyLen : p.keyLen = key.length
  pos : 0 < key.length
  le : key.length ≤ maxKeyLength
  fetched : p.keyDataFetched = key.length
  bytes : p.keyData.bytes.take (key.length + 1) = key ++ [0]

/-- The key is held as long as its three fields are not changed. -/
theorem Parser.HoldsKey.keep {p p' : Parser} {key : List UInt8} (h : p.HoldsKey key)
    (same : (p'.keyLen, p'.keyDataFetched, p'.keyData) =
      (p.keyLen, p.keyDataFetched, p.keyData)) : p'.HoldsKey key := by
  obtain ⟨keyLen, fetched, data⟩ : p'.keyLen = p.keyLen ∧ p'.keyDataFetched = p.keyDataFetched ∧
      p'.keyData = p.keyData := by simpa using same
  exact ⟨keyLen ▸ h.keyLen, h.pos, h.le, fetched ▸ h.fetched, data ▸ h.bytes⟩

/-- The fields of a proto in each phase of a record. -/
def Parser.At (p : Parser) : Phase → Prop
  | .keyLenHigh =>
    p.state = .keyLenRead ∧ p.keyLen = -1 ∧ p.keyDataFetched = 0 ∧ p.valLen = -1 ∧
      p.valDataFetched = 0
  | .keyLenLow =>
    p.state = .keyLenRead ∧ p.keyLen = 0 ∧ p.keyDataFetched = 0 ∧ p.valLen = -1 ∧
      p.valDataFetched = 0
  | .keyData len got =>
    p.state = .keyDataRead ∧ p.keyLen = len ∧ len ≤ maxKeyLength ∧
      p.keyDataFetched = got.length ∧ got.length < len ∧
      p.keyData.bytes.take got.length = got ∧ p.valLen = -1 ∧ p.valDataFetched = 0
  | .valLenHigh key =>
    p.state = .valLenRead ∧ p.HoldsKey key ∧ p.valLen = -1 ∧ p.valDataFetched = 0
  | .valLenLow key high =>
    p.state = .valLenRead ∧ p.HoldsKey key ∧ p.valLen = high.toNat * 256 ∧
      p.valDataFetched = 0
  | .valData key len got =>
    p.state = .valDataRead ∧ p.HoldsKey key ∧ p.valLen = len ∧ len ≤ maxValueLength ∧
      p.valDataFetched = got.length ∧ (got.length < len ∨ len = 0 ∧ got = []) ∧
      p.valData.bytes.take got.length = got

/-- Neither the box nor the error belongs to the phase. -/
theorem Parser.At.frame {p : Parser} {phase : Phase} (h : p.At phase) (error : AmpError)
    (box : Option AmpBox) : ({ p with error := error, box := box } : Parser).At phase := by
  cases phase with
  | keyLenHigh | keyLenLow | keyData => exact h
  | valLenHigh | valLenLow | valData => exact ⟨h.1, h.2.1.keep rfl, h.2.2⟩

variable {σ : Type}

/-- An error-free proto that stands where the decoder stands. -/
structure Represents (now : Consumer σ) (d : Decoder σ) : Prop where
  noError : now.proto.error = 0
  atPhase : now.proto.At d.phase
  box : now.proto.box = d.box
  mem : now.mem = d.mem
  own : now.own = d.own

/-- What a call returns and leaves behind, against the progress of the decoder. -/
def Shows (r : Int × Consumer σ) : Progress σ → Prop
  | .ongoing d => r.1 = 0 ∧ Represents r.2 d
  | .failed ret mem own =>
    r.1 = ret ∧ ret ≠ 0 ∧ r.2.proto.error = ret ∧ r.2.mem = mem ∧ r.2.own = own

theorem Parser.at_fresh (keyData : Buffer (256 + 1)) (valData : Buffer (256 * 256))
    (box : AmpBox) : (Parser.fresh keyData valData box).At .keyLenHigh :=
  ⟨rfl, rfl, rfl, rfl, rfl⟩

theorem Parser.at_reset (mem : Mem) (p : Parser) : (p.reset mem).1.At .keyLenHigh :=
  ⟨rfl, rfl, rfl, rfl, rfl⟩

/-- A new parser stands where a new decoder stands. -/
theorem Represents.fresh {p : Parser} {keyData : Buffer (256 + 1)} {valData : Buffer (256 * 256)}
    (parser : p = .fresh keyData valData (AmpBox.new hashString)) (mem : Mem) (own : σ) :
    Represents ⟨p, mem, own⟩ ⟨.keyLenHigh, some (AmpBox.new hashString), mem, own⟩ := by
  rw [parser]
  exact ⟨rfl, Parser.at_fresh _ _ _, rfl, rfl, rfl⟩

/-! ## Storing a record -/

/-- Only the first `bufSize` bytes of the buffer are read. -/
theorem ampPutBuf_take {mem : Mem} {box : Option AmpBox} {key : CString} {buf : List UInt8}
    {n : Nat} (h : n ≤ buf.length) :
    ampPutBuf mem box key buf n = ampPutBuf mem box key (buf.take n) n := by
  have room : ¬ (n : Int) > buf.length := by omega
  have room' : ¬ (n : Int) > (buf.take n).length := by
    rw [List.length_take]
    omega
  have same : (buf.take n).take (n : Int).toNat = buf.take (n : Int).toNat := by simp
  unfold ampPutBuf
  simp only [room, room', ↓reduceDIte, same]

/-- The C string in `key_data` ends at the terminator the parser wrote. -/
theorem Parser.HoldsKey.cstring {p : Parser} {key : List UInt8} (h : p.HoldsKey key) :
    p.keyData.cstring = .ok (.ofBytes key) := by
  have split : p.keyData.bytes = key ++ 0 :: p.keyData.bytes.drop (key.length + 1) := by
    conv_lhs => rw [← List.take_append_drop (key.length + 1) p.keyData.bytes, h.bytes]
    simp
  rw [Buffer.cstring, split, if_pos (by simp), CString.ofBytes_append_nul]

/-- A record the buffers hold is stored as the decoder stores it. -/
theorem storeKeyValue_eq {mem : Mem} {p : Parser} {box : Option AmpBox} {key value : List UInt8}
    (hkey : p.HoldsKey key) (hval : p.valData.bytes.take value.length = value)
    (hlen : p.valLen = value.length) (hcap : value.length ≤ 256 * 256) :
    storeKeyValue mem p box = ampPutBytes mem box (.ofBytes key) value value.length := by
  have room : value.length ≤ p.valData.bytes.length := by rwa [p.valData.length_eq]
  rw [storeKeyValue, hkey.cstring, hlen]
  simp only [ampPutBytes]
  rw [ampPutBuf_take room, hval]

/-! ## One turn of `amp_parse_box` -/

/-- The number of turns left: a state that may consume nothing comes before one that does. -/
def ParseLoop.measure (s : ParseLoop) : Nat :=
  2 * s.rest.length +
    match s.proto.state with
    | .keyDataRead | .valDataRead => 1
    | _ => 0

section Turns

variable {dispatch : DispatchBox σ} {own : σ} {buf : List UInt8}
  {target : Except Fault (Progress σ)}

/-- The decoder that stands where the locals of the loop stand. -/
def ParseLoop.decoder (own : σ) (s : ParseLoop) (phase : Phase) : Decoder σ :=
  ⟨phase, s.box, s.mem, own⟩

/-- The loop invariant: decoding the remaining bytes gives the result that was asked for. -/
structure ParseLoop.Inv (dispatch : DispatchBox σ) (own : σ) (buf : List UInt8)
    (target : Except Fault (Progress σ)) (s : ParseLoop) (phase : Phase) : Prop where
  noError : s.proto.error = 0
  atPhase : s.proto.At phase
  idx_nonneg : 0 ≤ s.idx
  idx_add : s.idx + s.rest.length = buf.length
  rest_eq : s.rest = buf.drop s.idx.toNat
  meets : (s.decoder own phase).run dispatch s.rest = target

/-- What `amp_parse_box` owes its caller. A full box is still to be dispatched. -/
structure ParseResult.Left (dispatch : DispatchBox σ) (own : σ) (buf : List UInt8)
    (target : Except Fault (Progress σ)) (r : ParseResult) : Prop where
  consumed : 0 ≤ r.bytesConsumed ∧ r.bytesConsumed ≤ buf.length
  cases : (r.status = 1 ∧ r.proto.error = 0 ∧ r.proto.At .keyLenHigh ∧ 1 ≤ r.bytesConsumed ∧
      Progress.andThen (Decoder.finishBox dispatch ⟨.keyLenHigh, r.box, r.mem, own⟩)
        (fun d => d.run dispatch (buf.drop r.bytesConsumed.toNat)) = target) ∨
    (r.status = 0 ∧ r.proto.error ≠ 0 ∧ target = .ok (.failed r.proto.error r.mem own)) ∨
    (r.status = 0 ∧ r.proto.error = 0 ∧ r.bytesConsumed = buf.length ∧
      ∃ phase, r.proto.At phase ∧ target = .ok (.ongoing ⟨phase, r.box, r.mem, own⟩))

/-- What one turn owes the loop. -/
abbrev ParseLoop.TurnSpec (dispatch : DispatchBox σ) (own : σ) (buf : List UInt8)
    (target : Except Fault (Progress σ)) (s : ParseLoop) :
    Except Fault (Turn ParseLoop ParseResult) → Prop :=
  Outcome (fun e => target = .error e)
    (TurnOutcome
      (fun t => (∃ phase, t.Inv dispatch own buf target phase) ∧ t.measure < s.measure)
      (fun r => r.Left dispatch own buf target))

variable {s : ParseLoop} {phase : Phase}

theorem ParseLoop.Inv.drop (inv : s.Inv dispatch own buf target phase) (n : Nat) :
    buf.drop (s.idx + n).toNat = s.rest.drop n := by
  have := inv.idx_nonneg
  rw [inv.rest_eq, List.drop_drop]
  congr 1
  omega

/-- The invariant `n` bytes further on. -/
theorem ParseLoop.Inv.moved (inv : s.Inv dispatch own buf target phase) {n : Nat}
    (hn : n ≤ s.rest.length) {t : ParseLoop} {phase' : Phase} (idx : t.idx = s.idx + n)
    (rest : t.rest = s.rest.drop n) (noError : t.proto.error = 0) (atPhase : t.proto.At phase')
    (meets : (t.decoder own phase').run dispatch (s.rest.drop n) = target) :
    t.Inv dispatch own buf target phase' := by
  have nonneg := inv.idx_nonneg
  have all := inv.idx_add
  refine ⟨noError, atPhase, by omega, ?_, ?_, rest ▸ meets⟩
  · rw [rest, List.length_drop]
    omega
  · rw [rest, idx, inv.drop]

/-- Moving on by `n` bytes that take the decoder to another phase. -/
theorem ParseLoop.Inv.advance (inv : s.Inv dispatch own buf target phase) {n : Nat}
    (hn : n ≤ s.rest.length) {proto : Parser} {phase' : Phase} (noError : proto.error = 0)
    (atPhase : proto.At phase')
    (run : (s.decoder own phase).run dispatch (s.rest.take n) =
      .ok (.ongoing (s.decoder own phase'))) :
    (s.advance n proto).Inv dispatch own buf target phase' := by
  refine inv.moved hn rfl rfl noError atPhase ?_
  have whole := inv.meets
  rw [← List.take_append_drop n s.rest, Decoder.run_append, run,
    Progress.andThen_ongoing] at whole
  exact whole

/-- The bytes a loop has moved past, as the caller counts them. -/
theorem ParseLoop.Inv.consumed (inv : s.Inv dispatch own buf target phase) {n : Nat}
    (hn : n ≤ s.rest.length) : 0 ≤ s.idx + n ∧ s.idx + n ≤ buf.length := by
  have := inv.idx_nonneg
  have := inv.idx_add
  omega

theorem readKeyLen_spec (inv : s.Inv dispatch own buf target phase) {c : UInt8}
    {tail : List UInt8} (hrest : s.rest = c :: tail)
    (hphase : phase = .keyLenHigh ∨ phase = .keyLenLow) :
    s.TurnSpec dispatch own buf target (.ok (readKeyLen s c)) := by
  have one : 1 ≤ s.rest.length := by simp [hrest]
  have take : s.rest.take 1 = [c] := by simp [hrest]
  have drop : s.rest.drop 1 = tail := by simp [hrest]
  have consumed := inv.consumed one
  have meets := inv.meets
  rw [hrest, Decoder.run_cons] at meets
  rcases hphase with rfl | rfl
  · obtain ⟨hstate, hkeyLen, hkeyFetched, hvalLen, hvalFetched⟩ := inv.atPhase
    by_cases hc : c = 0
    · simp only [readKeyLen, hkeyLen, hc, ne_eq, not_true_eq_false, ↓reduceIte]
      refine ⟨⟨.keyLenLow, inv.advance (n := 1) one inv.noError
        ⟨hstate, rfl, hkeyFetched, hvalLen, hvalFetched⟩ ?_⟩, ?_⟩
      · rw [take, hc]
        rfl
      · simp [ParseLoop.measure, ParseLoop.advance, hstate, hrest]
    · simp only [readKeyLen, hkeyLen, hc, ne_eq, not_false_eq_true, ↓reduceIte]
      refine ⟨consumed, .inr (.inl ⟨rfl, show ampBadKeySize ≠ 0 by decide, ?_⟩)⟩
      rw [← meets]
      simp [Decoder.step, Decoder.start, hc, ParseLoop.decoder, ParseLoop.advance]
  · obtain ⟨hstate, hkeyLen, hkeyFetched, hvalLen, hvalFetched⟩ := inv.atPhase
    have second : ¬ (0 : Int) = -1 := by decide
    by_cases hc : c = 0
    · simp only [readKeyLen, hkeyLen, second, hc, ↓reduceIte]
      refine ⟨consumed, .inl ⟨rfl, inv.noError, ⟨rfl, rfl, hkeyFetched, hvalLen, hvalFetched⟩,
        ?_, ?_⟩⟩
      · have := inv.idx_nonneg
        simp only [ParseLoop.advance]
        omega
      · rw [← meets]
        have hdrop : buf.drop (s.idx + 1).toNat = tail := (inv.drop 1).trans drop
        simp only [ParseLoop.advance, hdrop, Decoder.step, hc, ↓reduceIte, ParseLoop.decoder]
        rfl
    · simp only [readKeyLen, hkeyLen, second, hc, ↓reduceIte]
      have range := c.toNat_lt
      have pos : c.toNat ≠ 0 := fun h => hc (UInt8.toNat_inj.1 h)
      refine ⟨⟨.keyData c.toNat [], inv.advance (n := 1) one inv.noError
        ⟨rfl, rfl, by simp [maxKeyLength]; omega, hkeyFetched, by simp; omega, rfl, hvalLen,
          hvalFetched⟩ ?_⟩, ?_⟩
      · rw [take]
        simp [Decoder.run_cons, Decoder.step, hc, ParseLoop.decoder]
      · simp [ParseLoop.measure, ParseLoop.advance, hstate, hrest]
        omega

theorem readValLen_spec (inv : s.Inv dispatch own buf target phase) {c : UInt8}
    {tail : List UInt8} (hrest : s.rest = c :: tail)
    (hphase : (∃ key, phase = .valLenHigh key) ∨ ∃ key high, phase = .valLenLow key high) :
    s.TurnSpec dispatch own buf target (.ok (readValLen s c)) := by
  have one : 1 ≤ s.rest.length := by simp [hrest]
  have take : s.rest.take 1 = [c] := by simp [hrest]
  have range := c.toNat_lt
  rcases hphase with ⟨key, rfl⟩ | ⟨key, high, rfl⟩
  · obtain ⟨hstate, hkey, hvalLen, hvalFetched⟩ := inv.atPhase
    simp only [readValLen, hvalLen, ↓reduceIte]
    refine ⟨⟨.valLenLow key c, inv.advance (n := 1) one inv.noError
      ⟨hstate, hkey.keep rfl, ?_, hvalFetched⟩ ?_⟩, ?_⟩
    · exact Int.shiftLeft_eq _ 8
    · rw [take]
      rfl
    · simp [ParseLoop.measure, ParseLoop.advance, hstate, hrest]
  · obtain ⟨hstate, hkey, hvalLen, hvalFetched⟩ := inv.atPhase
    have second : ¬ s.proto.valLen = -1 := by omega
    have sum : Int.lor s.proto.valLen c.toNat = (high.toNat * 256 + c.toNat : Nat) := by
      rw [hvalLen, show ((high.toNat : Int) * 256) = ((high.toNat * 256 : Nat) : Int) by simp]
      change ((high.toNat * 256 ||| c.toNat : Nat) : Int) = _
      rw [show high.toNat * 256 = high.toNat <<< 8 from (Nat.shiftLeft_eq _ 8).symm,
        Nat.shiftLeft_add_eq_or_of_lt range]
    have highRange := high.toNat_lt
    simp only [readValLen, second, ↓reduceIte]
    refine ⟨⟨.valData key (high.toNat * 256 + c.toNat) [], inv.advance (n := 1) one inv.noError
      ⟨rfl, hkey.keep rfl, sum, ?_, hvalFetched, ?_, rfl⟩ ?_⟩, ?_⟩
    · simp only [maxValueLength]
      omega
    · rcases Nat.eq_zero_or_pos (high.toNat * 256 + c.toNat) with h | h
      · exact .inr ⟨h, rfl⟩
      · exact .inl h
    · rw [take]
      rfl
    · simp [ParseLoop.measure, ParseLoop.advance, hstate, hrest]
      omega

section KeyData

variable {len : Nat} {got : List UInt8} (inv : s.Inv dispatch own buf target (.keyData len got))
include inv

/-- All bytes of the buffer belong to the key, which is not complete after them. -/
theorem readKeyData_part (hrest : s.rest ≠ []) (part : got.length + s.rest.length < len) :
    s.TurnSpec dispatch own buf target (readKeyData s) := by
  obtain ⟨hstate, hkeyLen, hlen, hfetched, -, hbytes, hvalLen, hvalFetched⟩ := inv.atPhase
  have pos := List.length_pos_of_ne_nil hrest
  have short : (s.rest.length : Int) < len - got.length := by omega
  simp only [maxKeyLength] at hlen
  obtain ⟨b, copied, bytes⟩ := memcpy_append s.rest hbytes (by omega) le_rfl
  simp only [readKeyData, hkeyLen, hfetched, short, ↓reduceIte, copied]
  rw [List.take_length] at bytes
  refine ⟨⟨.keyData len (got ++ s.rest), inv.advance (n := s.rest.length) le_rfl inv.noError
    ⟨hstate, rfl, hlen, by simp, by simp; omega, ?_, hvalLen, hvalFetched⟩ ?_⟩, ?_⟩
  · rw [List.length_append, bytes]
  · rw [List.take_length, Decoder.run_keyData_part rfl part]
    rfl
  · simp only [ParseLoop.measure, ParseLoop.advance, hstate, List.length_drop,
      Int.toNat_natCast]
    omega

/-- `n` bytes complete the key, and the terminator goes behind them. -/
theorem readKeyData_rest {n : Nat} (hn : got.length + n = len) (hle : n ≤ s.rest.length) :
    s.TurnSpec dispatch own buf target (readKeyData s) := by
  obtain ⟨hstate, hkeyLen, hlen, hfetched, hgot, hbytes, hvalLen, hvalFetched⟩ := inv.atPhase
  have enough : ¬ (s.rest.length : Int) < n := by omega
  have needed : (len : Int) - got.length = n := by omega
  have last : (s.rest.take n).length = n := List.length_take_of_le hle
  have whole : (got ++ s.rest.take n).length = got.length + n := by rw [List.length_append, last]
  simp only [maxKeyLength] at hlen
  obtain ⟨b, copied, bytes⟩ := memcpy_append s.rest hbytes (by omega) hle
  rw [← whole] at bytes
  obtain ⟨b', terminated, bytes'⟩ := memcpy_append (n := 1) [0] bytes (by omega) le_rfl
  rw [whole] at terminated
  push_cast at terminated
  simp only [readKeyData, hkeyLen, hfetched, enough, ↓reduceIte, needed, copied, terminated]
  refine ⟨⟨.valLenHigh (got ++ s.rest.take n), inv.advance (n := n) hle inv.noError
    ⟨rfl, ⟨?_, ?_, ?_, ?_, bytes'⟩, hvalLen, hvalFetched⟩ ?_⟩, ?_⟩
  · rw [whole, hn]
  · omega
  · simp only [maxKeyLength]
    omega
  · rw [whole]
    rfl
  · rw [Decoder.run_keyData_rest rfl (by omega) hgot]
    rfl
  · simp only [ParseLoop.measure, ParseLoop.advance, hstate, List.length_drop,
      Int.toNat_natCast]
    omega

theorem readKeyData_spec (hrest : s.rest ≠ []) :
    s.TurnSpec dispatch own buf target (readKeyData s) := by
  obtain ⟨-, -, -, -, hgot, -⟩ := inv.atPhase
  by_cases part : got.length + s.rest.length < len
  · exact readKeyData_part inv hrest part
  · exact readKeyData_rest inv (n := len - got.length) (by omega) (by omega)

end KeyData

section ValData

variable {key : List UInt8} {len : Nat} {got : List UInt8}
  (inv : s.Inv dispatch own buf target (.valData key len got)) (hrest : s.rest ≠ [])
include inv hrest

/-- All bytes of the buffer belong to the value, which is not complete after them. -/
theorem readValData_part (part : got.length + s.rest.length < len) :
    s.TurnSpec dispatch own buf target (readValData s) := by
  obtain ⟨hstate, hkey, hvalLen, hlen, hfetched, -, hbytes⟩ := inv.atPhase
  have pos := List.length_pos_of_ne_nil hrest
  have short : (s.rest.length : Int) < len - got.length := by omega
  simp only [maxValueLength] at hlen
  obtain ⟨b, copied, bytes⟩ := memcpy_append s.rest hbytes (by omega) le_rfl
  simp only [readValData, hvalLen, hfetched, short, ↓reduceIte, copied]
  rw [List.take_length] at bytes
  refine ⟨⟨.valData key len (got ++ s.rest), inv.advance (n := s.rest.length) le_rfl
    inv.noError ⟨hstate, hkey.keep rfl, rfl, hlen, by simp, .inl (by simp; omega), ?_⟩ ?_⟩, ?_⟩
  · rw [List.length_append, bytes]
  · rw [List.take_length, Decoder.run_valData_part rfl part]
    rfl
  · simp only [ParseLoop.measure, ParseLoop.advance, hstate, List.length_drop,
      Int.toNat_natCast]
    omega

/-- `n` bytes complete the value, and the record is stored. -/
theorem readValData_rest {n : Nat} (hn : got.length + n = len) (hle : n ≤ s.rest.length) :
    s.TurnSpec dispatch own buf target (readValData s) := by
  obtain ⟨hstate, hkey, hvalLen, hlen, hfetched, hgot, hbytes⟩ := inv.atPhase
  have enough : ¬ (s.rest.length : Int) < n := by omega
  have needed : (len : Int) - got.length = n := by omega
  have last : (s.rest.take n).length = n := List.length_take_of_le hle
  have whole : (got ++ s.rest.take n).length = got.length + n := by rw [List.length_append, last]
  simp only [maxValueLength] at hlen
  obtain ⟨b, copied, bytes⟩ := memcpy_append s.rest hbytes (by omega) hle
  have stored : storeKeyValue s.mem
      { s.proto with
        valLen := (len : Int)
        valData := b
        valDataFetched := (got.length : Int) + n } s.box =
        ampPutBytes s.mem s.box (.ofBytes key) (got ++ s.rest.take n)
          (got ++ s.rest.take n).length := by
    refine storeKeyValue_eq (hkey.keep rfl) ?_ ?_ (by omega)
    · rw [whole, bytes]
    · rw [whole, hn]
  -- the decoder stores the record after the same bytes
  have split : Progress.andThen
      ((s.decoder own (.valData key len got)).store key (got ++ s.rest.take n))
      (fun d => d.run dispatch (s.rest.drop n)) = target :=
    (Decoder.run_value rfl hgot hn hle hrest).symm.trans inv.meets
  simp only [readValData, hvalLen, hfetched, enough, ↓reduceIte, needed, copied,
    ParseLoop.advance, stored]
  simp only [Decoder.store, ParseLoop.decoder] at split
  rcases hput : ampPutBytes s.mem s.box (.ofBytes key) (got ++ s.rest.take n)
      (got ++ s.rest.take n).length with e | r <;> rw [hput] at split
  · exact split.symm
  by_cases hr : r.ret = 0
  · simp only [hr, ne_eq, not_true_eq_false, ↓reduceIte, Progress.andThen_ongoing] at split ⊢
    refine ⟨⟨.keyLenHigh, inv.moved hle rfl rfl rfl ⟨rfl, rfl, rfl, rfl, rfl⟩ split⟩, ?_⟩
    simp only [ParseLoop.measure, hstate, List.length_drop, Int.toNat_natCast]
    omega
  · simp only [hr, ne_eq, not_false_eq_true, ↓reduceIte, Progress.andThen_failed] at split ⊢
    exact ⟨inv.consumed hle, .inr (.inl ⟨rfl, hr, split.symm⟩)⟩

theorem readValData_spec : s.TurnSpec dispatch own buf target (readValData s) := by
  obtain ⟨-, -, -, -, -, hgot, -⟩ := inv.atPhase
  by_cases part : got.length + s.rest.length < len
  · exact readValData_part inv hrest part
  · have fits : got.length ≤ len := by
      rcases hgot with h | ⟨rfl, rfl⟩
      · exact h.le
      · exact le_rfl
    exact readValData_rest inv hrest (n := len - got.length) (by omega) (by omega)

end ValData

/-- One turn of the loop of `amp_parse_box`. -/
theorem parseTurn_spec (inv : s.Inv dispatch own buf target phase) (bytesConsumed : Int) :
    s.TurnSpec dispatch own buf target (parseTurn bytesConsumed s) := by
  unfold parseTurn
  rcases hrest : s.rest with _ | ⟨c, tail⟩
  · have meets := inv.meets
    have all := inv.idx_add
    have := inv.idx_nonneg
    rw [hrest] at meets all
    simp only [List.length_nil, Nat.cast_zero, add_zero] at all
    exact ⟨⟨this, all.le⟩,
      .inr (.inr ⟨rfl, inv.noError, all, phase, inv.atPhase, meets.symm⟩)⟩
  have nonempty : s.rest ≠ [] := by simp [hrest]
  have atPhase := inv.atPhase
  cases phase with
  | keyLenHigh =>
    simp only [atPhase.1]
    exact readKeyLen_spec inv hrest (.inl rfl)
  | keyLenLow =>
    simp only [atPhase.1]
    exact readKeyLen_spec inv hrest (.inr rfl)
  | keyData len got =>
    simp only [atPhase.1]
    exact readKeyData_spec inv nonempty
  | valLenHigh key =>
    simp only [atPhase.1]
    exact readValLen_spec inv hrest (.inl ⟨key, rfl⟩)
  | valLenLow key high =>
    simp only [atPhase.1]
    exact readValLen_spec inv hrest (.inr ⟨key, high, rfl⟩)
  | valData key len got =>
    simp only [atPhase.1]
    exact readValData_spec inv nonempty

end Turns

/-! ## What storing preserves -/

section Storing

variable (P : Option AmpBox → Mem → Prop)
  (store : ∀ {mem proto box r}, P box mem → storeKeyValue mem proto box = .ok r → P r.box r.mem)
include store

/-- What storing a key and a value preserves, one turn of `amp_parse_box` preserves. -/
theorem parseTurn_inv {s : ParseLoop} (hs : P s.box s.mem) (bytesConsumed : Int) :
    Outcome (fun _ => True) (TurnOutcome (fun t => P t.box t.mem) (fun r => P r.box r.mem))
      (parseTurn bytesConsumed s) := by
  unfold parseTurn
  split
  · exact hs
  split
  · unfold readKeyLen
    split
    · split <;> exact hs
    · split <;> exact hs
  · unfold readKeyData
    dsimp only
    split
    · split
      · trivial
      · exact hs
    split
    · trivial
    split
    · trivial
    · exact hs
  · unfold readValLen
    split <;> exact hs
  · unfold readValData
    dsimp only
    split
    · split
      · trivial
      · exact hs
    split
    · trivial
    split
    · trivial
    · next r stored =>
      have kept := store hs stored
      split <;> exact kept
  · exact hs

theorem ampParseBox_inv {mem : Mem} {proto : Parser} {box : Option AmpBox} {n : Int}
    {buf : List UInt8} {r : ParseResult} (hs : P box mem)
    (h : ampParseBox mem proto box n buf = .ok r) : P r.box r.mem :=
  WhileLoop.run_left (fun s : ParseLoop => P s.box s.mem)
    (fun _ hs => parseTurn_inv P store hs n) hs h

end Storing

end LibAmp
