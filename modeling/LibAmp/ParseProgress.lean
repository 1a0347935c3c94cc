import LibAmp.Items
import LibAmp.ParserInvariant

/-!
# Progress of the parser

A call of `amp_parse_box` consumes at least one byte unless it latches an error, and all of them
unless it stops at a full box or an error; so `amp_consume_bytes` goes through its buffer piece by
piece and ends. What stands in the way is a proto whose box could not be allocated: the next
complete record is stored through a null pointer and `*bytesConsumed` is never set.

## Main results

* `Represents.parses_iff`: when one call of `amp_parse_box` makes progress
* `Represents.consumesAll_iff`: when a call of `amp_consume_bytes` goes through its buffer
* `parse_progress`: both, for every reachable proto
-/

namespace LibAmp

open WhileLoop (Turn Outcome TurnOutcome Visits)
open Wire (Record)

variable {σ : Type}

/-! ## The bytes a proto holds -/

/-- The bytes of the present record that earlier calls have consumed. -/
def Parser.pending (p : Parser) : List UInt8 :=
  match p.state with
  | .keyLenRead => if p.keyLen = -1 then [] else [0]
  | .keyDataRead =>
    Wire.encodeLength p.keyLen.toNat ++ p.keyData.bytes.take p.keyDataFetched.toNat
  | .valLenRead =>
    Wire.encodeLength p.keyLen.toNat ++ p.keyData.bytes.take p.keyLen.toNat ++
      if p.valLen = -1 then [] else [UInt8.ofNat (p.valLen.toNat / 256)]
  | .valDataRead =>
    Wire.encodeLength p.keyLen.toNat ++ p.keyData.bytes.take p.keyLen.toNat ++
      Wire.encodeLength p.valLen.toNat ++ p.valData.bytes.take p.valDataFetched.toNat
  | .undeclared _ => []

/-- The bytes of the present record, phase by phase. -/
def Phase.pending : Phase → List UInt8
  | .keyLenHigh => []
  | .keyLenLow => [0]
  | .keyData len got => Wire.encodeLength len ++ got
  | .valLenHigh key => Wire.encodeLength key.length ++ key
  | .valLenLow key high => Wire.encodeLength key.length ++ key ++ [high]
  | .valData key len got =>
    Wire.encodeLength key.length ++ key ++ Wire.encodeLength len ++ got

theorem Parser.At.pending_eq {p : Parser} {phase : Phase} (h : p.At phase) :
    p.pending = phase.pending := by
  cases phase with
  | keyLenHigh | keyLenLow =>
    obtain ⟨state, keyLen, -⟩ := h
    simp [Parser.pending, Phase.pending, state, keyLen]
  | keyData len got =>
    obtain ⟨state, keyLen, -, fetched, -, bytes, -⟩ := h
    simp [Parser.pending, Phase.pending, state, keyLen, fetched, bytes]
  | valLenHigh key =>
    obtain ⟨state, held, valLen, -⟩ := h
    simp [Parser.pending, Phase.pending, state, held.keyLen, held.take, valLen]
  | valLenLow key high =>
    obtain ⟨state, held, valLen, -⟩ := h
    have second : ¬ (high.toNat : Int) * 256 = -1 := by omega
    have byte : ((high.toNat : Int) * 256).toNat / 256 = high.toNat := by omega
    simp [Parser.pending, Phase.pending, state, held.keyLen, held.take, valLen, second, byte]
  | valData key len got =>
    obtain ⟨state, held, valLen, -, fetched, -, bytes⟩ := h
    simp [Parser.pending, Phase.pending, state, held.keyLen, held.take, valLen, fetched, bytes]

variable {dispatch : DispatchBox σ} {now : Consumer σ} {d : Decoder σ} {buf : List UInt8}

variable (dispatch) in
/-- A decoder at the start of a record that is given the pending bytes stands where the parser
does. -/
theorem Parser.At.run_pending {p : Parser} {phase : Phase} (h : p.At phase)
    (hd : d.phase = .keyLenHigh) :
    d.run dispatch p.pending = .ok (.ongoing { d with phase := phase }) := by
  rw [h.pending_eq]
  cases phase with
  | keyLenHigh =>
    obtain ⟨phase, box, mem, own⟩ := d
    obtain rfl : phase = .keyLenHigh := hd
    rfl
  | keyLenLow =>
    simp [Phase.pending, Decoder.run_cons, Decoder.step, Decoder.start, hd]
  | keyData len got =>
    obtain ⟨-, -, le, -, more, -⟩ := h
    simp only [maxKeyLength] at le
    have low : UInt8.ofNat len ≠ 0 := by
      intro zero
      have := congrArg UInt8.toNat zero
      simp at this
      omega
    have byte : (UInt8.ofNat len).toNat = len := by
      simp
      omega
    rw [Phase.pending, Wire.encodeLength_of_lt (by omega), List.cons_append, List.cons_append,
      List.nil_append, Decoder.run_cons, Decoder.step, hd]
    simp only [Decoder.start, ne_eq, not_true_eq_false, ↓reduceIte, Progress.andThen_ongoing]
    rw [Decoder.run_cons, Decoder.step]
    simp only [low, ↓reduceIte, Progress.andThen_ongoing, byte]
    rw [Decoder.run_keyData_part rfl (by simpa using more), List.nil_append]
  | valLenHigh key =>
    obtain ⟨-, held, -⟩ := h
    have run := Decoder.run_key dispatch (s := []) hd held.pos held.le
    rwa [List.append_nil] at run
  | valLenLow key high =>
    obtain ⟨-, held, -⟩ := h
    rw [Phase.pending, Decoder.run_key dispatch hd held.pos held.le]
    rfl
  | valData key len got =>
    obtain ⟨-, held, -, le, -, more, -⟩ := h
    rw [Phase.pending, List.append_assoc, Decoder.run_key dispatch hd held.pos held.le,
      Decoder.run_valLen rfl le]
    rcases more with more | ⟨rfl, rfl⟩
    · rw [Decoder.run_valData_part rfl (by simpa using more), List.nil_append]
    · rfl

/-! ## Storing through a null pointer -/

/-- The proto has no box, its bytes and the buffer complete a record, the key is not empty as a C
string, and there is memory for the pair: `amp_put_bytes` gets to look at the box. -/
def Consumer.NullStore (now : Consumer σ) (buf : List UInt8) : Prop :=
  now.proto.box = none ∧ now.mem 0 .keyval = true ∧
    ∃ r rest, Wire.readItem (now.proto.pending ++ buf) = .record r rest ∧
      (r.value ≠ [] ∨ rest ≠ []) ∧ r.key.head? ≠ some 0

/-- Without a box a record is stored nowhere, unless it is refused before the box is looked
at. -/
theorem Decoder.store_null {r : Record} (fits : r.Fits) (hbox : d.box = none) :
    (d.mem 0 .keyval = true ∧ r.key.head? ≠ some 0 ∧
        d.store r.key r.value = .error .nullDereference) ∨
      ¬ (d.mem 0 .keyval = true ∧ r.key.head? ≠ some 0) ∧
        ∃ ret mem, d.store r.key r.value = .ok (.failed ret mem d.own) := by
  by_cases nul : r.key.head? = some 0
  · exact .inr ⟨fun h => h.2 nul, _, _, Decoder.store_nul fits nul⟩
  · have keyNe : r.key ≠ [] := List.ne_nil_of_length_pos fits.key_pos
    have pos : strlen (.ofBytes r.key) ≠ 0 := fun h => nul ((strlen_keyName_eq_zero keyNe).1 h)
    have le : strlen (.ofBytes r.key) ≤ 255 := (strlen_keyName_le r.key).trans fits.key_le
    have keyOk : ¬ (strlen (.ofBytes r.key) > maxKeyLength ∨ strlen (.ofBytes r.key) = 0) := by
      simp only [maxKeyLength]
      omega
    have valOk : ¬ ((r.value.length : Int) > maxValueLength ∨ (r.value.length : Int) < 0) := by
      have := fits.value_le
      simp only [maxValueLength]
      omega
    simp only [Decoder.store, ampPutBytes, ampPutBuf, hbox, keyOk, valOk, ↓reduceDIte, malloc]
    cases served : d.mem 0 .keyval with
    | true => simp [nul]
    | false => simp

/-- A handler that refuses every box, so that decoding ends with the first one. -/
def refuseBoxes : DispatchBox σ := fun mem box own => .ok ⟨1, box, mem, own⟩

theorem Decoder.finishBox_refuse : d.finishBox refuseBoxes = .ok (.failed 1 d.mem d.own) := rfl

/-- Up to the end of the first box a decoder without a box faults on a complete record only. -/
theorem Decoder.run_null (hd : d.phase = .keyLenHigh) (hbox : d.box = none) {s : List UInt8}
    {e : Fault} :
    d.run refuseBoxes s = .error e ↔
      e = .nullDereference ∧ d.mem 0 .keyval = true ∧
        ∃ r rest, Wire.readItem s = .record r rest ∧ (r.value ≠ [] ∨ rest ≠ []) ∧
          r.key.head? ≠ some 0 := by
  cases item : Wire.readItem s with
  | endOfBox rest =>
    rw [Wire.eq_of_readItem_endOfBox item, run_endOfBox hd, finishBox_refuse]
    simp
  | badKeyLength =>
    obtain ⟨high, t, rfl, bad⟩ := Wire.eq_of_readItem_badKeyLength item
    rw [run_badKeyLength hd bad]
    simp
  | incomplete =>
    obtain ⟨phase, run⟩ := run_incomplete refuseBoxes hd item
    rw [run]
    simp
  | record r rest =>
    obtain ⟨rfl, fits⟩ := Wire.eq_of_readItem_record item
    by_cases more : r.value ≠ [] ∨ rest ≠ []
    · have same : (∃ r' rest', Wire.Item.record r rest = .record r' rest' ∧
          (r'.value ≠ [] ∨ rest' ≠ []) ∧ r'.key.head? ≠ some 0) ↔ r.key.head? ≠ some 0 := by
        grind
      rw [run_record hd fits more, same]
      rcases store_null fits hbox with ⟨served, named, store⟩ | ⟨refused, ret, mem, store⟩
      · rw [store]
        simp [served, named, eq_comm]
      · rw [store]
        simp only [Progress.andThen_failed, reduceCtorEq, false_iff]
        exact fun h => refused h.2
    · obtain ⟨noValue, noRest⟩ : r.value = [] ∧ rest = [] := by simpa using more
      rw [noRest, List.append_nil, run_pendingRecord hd fits noValue]
      simp only [reduceCtorEq, false_iff]
      rintro ⟨-, -, r', rest', same, more', -⟩
      cases same
      exact more (noRest ▸ more')

/-! ## One call of `amp_parse_box` -/

/-- What `amp_parse_box` owes on a proto without an error: it returns, whatever `*bytesConsumed`
was; it sets it to at most the size of the buffer, to at least 1 without an error, and to the size
of the buffer if there is neither an error nor a full box. -/
def Consumer.Parses (now : Consumer σ) (buf : List UInt8) : Prop :=
  ∀ bytesConsumed : Int, ∃ r,
    ampParseBox now.mem now.proto now.proto.box bytesConsumed buf = .ok r ∧
      0 ≤ r.bytesConsumed ∧ r.bytesConsumed ≤ buf.length ∧
      (r.proto.error = 0 → 1 ≤ r.bytesConsumed) ∧
      (r.status = 0 → r.proto.error = 0 → r.bytesConsumed = buf.length)

/-- A call runs into a fault exactly if the decoder does before the end of the first box. -/
theorem Represents.parseBox_error_iff (rep : Represents now d) {n : Int} {e : Fault} :
    ampParseBox now.mem now.proto now.proto.box n buf = .error e ↔
      d.run refuseBoxes buf = .error e := by
  have parsed := rep.parseBox refuseBoxes buf n
  rcases hparse : ampParseBox now.mem now.proto now.proto.box n buf with e' | r <;>
    rw [hparse] at parsed
  · rw [WhileLoop.outcome_error] at parsed
    rw [parsed]
    simp
  · simp only [reduceCtorEq, false_iff]
    intro fault
    rw [fault] at parsed
    rcases parsed.cases with ⟨-, -, -, -, full⟩ | ⟨-, -, failed⟩ | ⟨-, -, -, phase, -, ongoing⟩
    · rw [Decoder.finishBox_refuse] at full
      cases full
    · cases failed
    · cases ongoing

/-- With a box a record is stored or refused, and the box is still there. -/
theorem Decoder.store_live {key value : List UInt8} (live : d.box ≠ none) :
    ∃ p, d.store key value = .ok p ∧ ∀ d', p = .ongoing d' → d'.box ≠ none := by
  obtain ⟨box, hbox⟩ := Option.ne_none_iff_exists'.1 live
  have put := ampPutBuf_outcome d.mem d.box (.ofBytes key) (le_refl (value.length : Int))
  simp only [Decoder.store, ampPutBytes]
  rcases hput : ampPutBuf d.mem d.box (.ofBytes key) value value.length with e | r <;>
    rw [hput] at put
  · exact absurd put.2 live
  rw [hbox] at hput
  have kept := (ampPutBuf_keeps hput).1
  by_cases ok : r.ret = 0
  · refine ⟨.ongoing ⟨.keyLenHigh, r.box, r.mem, d.own⟩, by simp [ok], ?_⟩
    rintro d' same
    cases same
    exact Option.isSome_iff_ne_none.1 kept
  · exact ⟨.failed r.ret r.mem d.own, by simp [ok], by simp⟩

/-- With a box one byte is decoded, and the box is still there. -/
theorem Decoder.step_live (live : d.box ≠ none) (c : UInt8) :
    ∃ p, d.step refuseBoxes c = .ok p ∧ ∀ d', p = .ongoing d' → d'.box ≠ none := by
  have start (d : Decoder σ) (live : d.box ≠ none) (d' : Decoder σ) (h : d.start c = .ongoing d') :
      d'.box ≠ none := by
    unfold Decoder.start at h
    split at h <;> cases h
    exact live
  unfold Decoder.step
  split
  · exact ⟨_, rfl, start d live⟩
  · split
    · exact ⟨_, finishBox_refuse, by simp⟩
    · exact ⟨_, rfl, by simp [live]⟩
  · split
    · exact ⟨_, rfl, by simp [live]⟩
    · exact ⟨_, rfl, by simp [live]⟩
  · exact ⟨_, rfl, by simp [live]⟩
  · exact ⟨_, rfl, by simp [live]⟩
  · next key len got _ =>
    split
    · obtain ⟨d' | ⟨ret, mem, own⟩, store, kept⟩ := store_live live
      · rw [store]
        exact ⟨_, rfl, start d' (kept d' rfl)⟩
      · rw [store]
        exact ⟨_, rfl, by simp⟩
    · split
      · exact ⟨_, rfl, by simp [live]⟩
      · exact store_live live

/-- With a box there is nothing to run into. -/
theorem Decoder.run_live (live : d.box ≠ none) (s : List UInt8) :
    ∃ p, d.run refuseBoxes s = .ok p := by
  induction s generalizing d with
  | nil => exact ⟨_, rfl⟩
  | cons c s ih =>
    obtain ⟨d' | ⟨ret, mem, own⟩, step, kept⟩ := step_live live c
    · rw [run_cons, step]
      exact ih (kept d' rfl)
    · rw [run_cons, step]
      exact ⟨_, rfl⟩

theorem Represents.parseBox_live (rep : Represents now d) (live : now.proto.box ≠ none) (n : Int) :
    ∃ r, ampParseBox now.mem now.proto now.proto.box n buf = .ok r := by
  obtain ⟨p, run⟩ := Decoder.run_live (rep.box ▸ live) buf
  cases parsed : ampParseBox now.mem now.proto now.proto.box n buf with
  | error e =>
    rw [rep.parseBox_error_iff, run] at parsed
    cases parsed
  | ok r => exact ⟨r, rfl⟩

/-- Without a box there is one thing to run into. -/
theorem Represents.parseBox_null (rep : Represents now d) (null : now.proto.box = none) {n : Int}
    {e : Fault} :
    ampParseBox now.mem now.proto now.proto.box n buf = .error e ↔
      e = .nullDereference ∧ now.NullStore buf := by
  have whole := Decoder.run_null (σ := σ) (e := e) (s := now.proto.pending ++ buf)
    (d := { d with phase := .keyLenHigh }) rfl (rep.box ▸ null)
  rw [Decoder.run_append, rep.atPhase.run_pending refuseBoxes rfl, Progress.andThen_ongoing]
    at whole
  rw [rep.parseBox_error_iff, whole, Consumer.NullStore, rep.mem]
  simp [null]

theorem Represents.parseBox_nullStore (rep : Represents now d) (store : now.NullStore buf)
    (n : Int) : ampParseBox now.mem now.proto now.proto.box n buf = .error .nullDereference :=
  (rep.parseBox_null store.1).2 ⟨rfl, store⟩

/-- One call makes progress unless it stores a record through a null pointer. -/
theorem Represents.parses_iff (rep : Represents now d) (hbuf : buf ≠ []) :
    now.Parses buf ↔ ¬ now.NullStore buf := by
  constructor
  · intro parses store
    obtain ⟨r, parsed, -⟩ := parses 0
    rw [rep.parseBox_nullStore store] at parsed
    cases parsed
  · intro safe n
    have returns : ∃ r, ampParseBox now.mem now.proto now.proto.box n buf = .ok r := by
      by_cases null : now.proto.box = none
      · cases parsed : ampParseBox now.mem now.proto now.proto.box n buf with
        | error e => exact absurd ((rep.parseBox_null null).1 parsed).2 safe
        | ok r => exact ⟨r, rfl⟩
      · exact rep.parseBox_live null n
    obtain ⟨r, parsed⟩ := returns
    have left := rep.parseBox refuseBoxes buf n
    rw [parsed] at left
    refine ⟨r, parsed, left.consumed.1, left.consumed.2, ?_⟩
    have pos := List.length_pos_of_ne_nil hbuf
    rcases left.cases with ⟨status, noError, -, one, -⟩ | ⟨-, failed, -⟩ | ⟨status, noError, all, -⟩
    · exact ⟨fun _ => one, fun h => absurd (status.symm.trans h) one_ne_zero⟩
    · exact ⟨fun h => absurd h failed, fun _ h => absurd h failed⟩
    · exact ⟨fun _ => by omega, fun _ _ => all⟩

/-! ## One call of `amp_consume_bytes` -/

/-- The loop of `amp_consume_bytes` goes through its buffer piece by piece: every call of
`amp_parse_box` is given what the one before has left, and consumes the next piece of it. Only the
last piece may be empty, or leave something over, and then an error is returned and latched. -/
inductive Consumes (dispatch : DispatchBox σ) :
    ConsumeLoop σ → List (List UInt8) → Int × Consumer σ → Prop where
  | finish {s : ConsumeLoop σ} (empty : s.rest = []) (noError : s.now.proto.error = 0)
      (turn : consumeTurn dispatch s = .ok (.leave (0, s.now))) : Consumes dispatch s [] (0, s.now)
  | stop {s : ConsumeLoop σ} {piece rest : List UInt8} {r : ParseResult} {out : Int × Consumer σ}
      (split : s.rest = piece ++ rest)
      (parsed : ampParseBox s.now.mem s.now.proto s.now.proto.box s.bytesConsumed s.rest = .ok r)
      (consumed : r.bytesConsumed = piece.length)
      (turn : consumeTurn dispatch s = .ok (.leave out))
      (failed : out.1 ≠ 0) (latched : out.2.proto.error = out.1) : Consumes dispatch s [piece] out
  | again {s t : ConsumeLoop σ} {piece : List UInt8} {r : ParseResult}
      {pieces : List (List UInt8)} {out : Int × Consumer σ}
      (split : s.rest = piece ++ t.rest) (nonempty : piece ≠ [])
      (parsed : ampParseBox s.now.mem s.now.proto s.now.proto.box s.bytesConsumed s.rest = .ok r)
      (consumed : r.bytesConsumed = piece.length)
      (turn : consumeTurn dispatch s = .ok (.again t)) (noError : t.now.proto.error = 0)
      (more : Consumes dispatch t pieces out) : Consumes dispatch s (piece :: pieces) out

/-- The pieces are the buffer from its beginning, all of it if 0 is returned. -/
theorem Consumes.flatten {s : ConsumeLoop σ} {pieces : List (List UInt8)} {out : Int × Consumer σ}
    (h : Consumes dispatch s pieces out) :
    ∃ rest, s.rest = pieces.flatten ++ rest ∧ (out.1 = 0 ∧ out.2.proto.error = 0 ∧ rest = [] ∨
      out.1 ≠ 0 ∧ out.2.proto.error = out.1) := by
  induction h with
  | finish empty noError => exact ⟨[], by simp [empty], .inl ⟨rfl, noError, rfl⟩⟩
  | @stop s piece rest r out split _ _ _ failed latched =>
    exact ⟨rest, by simpa using split, .inr ⟨failed, latched⟩⟩
  | @again s t piece r pieces out split _ _ _ _ _ _ ih =>
    obtain ⟨rest, same, outcome⟩ := ih
    exact ⟨rest, by rw [split, same, List.flatten_cons, List.append_assoc], outcome⟩

/-- The handler comes back from the box that the present turn hands to it. -/
def ConsumeLoop.HandlerReturns (dispatch : DispatchBox σ) (s : ConsumeLoop σ) : Prop :=
  ∀ r, ampParseBox s.now.mem s.now.proto s.now.proto.box s.bytesConsumed s.rest = .ok r →
    r.status ≠ 0 → ∃ done, dispatch r.mem r.box s.now.own = .ok done

/-- What a call of `amp_consume_bytes` owes: it returns after going through its buffer, to the end
or to the first error. -/
def Consumer.ConsumesAll (dispatch : DispatchBox σ) (now : Consumer σ) (buf : List UInt8) : Prop :=
  ∃ out pieces rest, ampConsumeBytes dispatch now buf = .ok out ∧
    Consumes dispatch ⟨now, buf, 0⟩ pieces out ∧ buf = pieces.flatten ++ rest ∧
    (out.1 = 0 ∧ out.2.proto.error = 0 ∧ rest = [] ∨ out.1 ≠ 0 ∧ out.2.proto.error = out.1)

/-- One turn on a proto without an error whose call of `amp_parse_box` makes progress and whose
handler returns: it consumes a piece and goes round, or leaves with an error. -/
theorem Represents.turn {s : ConsumeLoop σ} (rep : Represents s.now d) (hrest : s.rest ≠ [])
    (parses : s.now.Parses s.rest) (returns : s.HandlerReturns dispatch) :
    ∃ r piece rest, s.rest = piece ++ rest ∧
      ampParseBox s.now.mem s.now.proto s.now.proto.box s.bytesConsumed s.rest = .ok r ∧
      r.bytesConsumed = piece.length ∧
      ((∃ t d', consumeTurn dispatch s = .ok (.again t) ∧ t.rest = rest ∧ piece ≠ [] ∧
          Represents t.now d') ∨
        ∃ out, consumeTurn dispatch s = .ok (.leave out) ∧ out.1 ≠ 0 ∧
          out.2.proto.error = out.1) := by
  obtain ⟨r, parsed, nonneg, le, one, all⟩ := parses s.bytesConsumed
  have split := List.take_append_drop r.bytesConsumed.toNat s.rest
  have length : (s.rest.take r.bytesConsumed.toNat).length = r.bytesConsumed.toNat :=
    List.length_take_of_le (by omega)
  refine ⟨r, _, _, split.symm, parsed, by omega, ?_⟩
  have left := rep.parseBox dispatch s.rest s.bytesConsumed
  rw [parsed] at left
  obtain ⟨c, tail, cons⟩ := List.exists_cons_of_ne_nil hrest
  have nonempty (noError : r.proto.error = 0) : s.rest.take r.bytesConsumed.toNat ≠ [] := by
    apply List.ne_nil_of_length_pos
    have := one noError
    omega
  unfold consumeTurn
  rw [cons]
  dsimp only
  rw [← cons, parsed]
  dsimp only
  rcases left.cases with ⟨status, noError, atPhase, -, -⟩ | ⟨status, failed, -⟩ |
    ⟨status, noError, -, phase, atPhase, -⟩
  · obtain ⟨done, dispatched⟩ := returns r parsed (by rw [status]; exact one_ne_zero)
    simp only [status, ne_eq, one_ne_zero, not_false_eq_true, ↓reduceIte, dispatchTurn, dispatched]
    by_cases accepted : done.ret = 0
    · rw [if_neg (by simp [accepted])]
      exact .inl ⟨_, ⟨.keyLenHigh, (ampNewBox .box done.mem).1, (ampNewBox .box done.mem).2,
        done.own⟩, rfl, rfl, nonempty noError, accepted, atPhase.frame _ _, rfl, rfl, rfl⟩
    · rw [if_pos accepted]
      exact .inr ⟨_, rfl, accepted, rfl⟩
  · simp only [status, failed, ne_eq, not_true_eq_false, not_false_eq_true, ↓reduceIte]
    exact .inr ⟨_, rfl, failed, rfl⟩
  · simp only [status, noError, ne_eq, not_true_eq_false, ↓reduceIte]
    exact .inl ⟨_, ⟨phase, r.box, r.mem, s.now.own⟩, rfl, rfl, nonempty noError, rfl,
      atPhase.frame _ _, rfl, rfl, rfl⟩

variable (dispatch) in
/-- A record stored through a null pointer at once is the end of the whole call. -/
theorem Represents.consume_nullStore (rep : Represents now d) (hbuf : buf ≠ [])
    (store : now.NullStore buf) :
    ampConsumeBytes dispatch now buf = .error .nullDereference := by
  obtain ⟨c, tail, cons⟩ := List.exists_cons_of_ne_nil hbuf
  rw [ampConsumeBytes, if_neg (by simp [rep.noError]), WhileLoop.run, consumeTurn, cons]
  dsimp only
  rw [← cons, rep.parseBox_nullStore store]

/-- Neither of the two obstacles stands in the way of the turns that are still to come. -/
def ConsumeLoop.Clear (dispatch : DispatchBox σ) (s : ConsumeLoop σ) : Prop :=
  ∀ t, Visits (consumeTurn dispatch) s t → t.rest ≠ [] →
    ¬ t.now.NullStore t.rest ∧ t.HandlerReturns dispatch

/-- The loop ends, by induction on what is left of the buffer. -/
theorem ConsumeLoop.Clear.consumes {s : ConsumeLoop σ} (clear : s.Clear dispatch)
    (rep : Represents s.now d) {fuel : Nat} (hfuel : s.rest.length < fuel) :
    ∃ out pieces, WhileLoop.run .outOfFuel (consumeTurn dispatch) fuel s = .ok out ∧
      Consumes dispatch s pieces out := by
  induction fuel generalizing s d with
  | zero => omega
  | succ fuel ih =>
    by_cases hrest : s.rest = []
    · have turn : consumeTurn dispatch s = .ok (.leave (0, s.now)) := by
        rw [consumeTurn, hrest]
      exact ⟨_, [], by rw [WhileLoop.run, turn], .finish hrest rep.noError turn⟩
    obtain ⟨safe, returns⟩ := clear s (.entry s) hrest
    obtain ⟨r, piece, rest, split, parsed, consumed, next⟩ :=
      rep.turn hrest ((rep.parses_iff hrest).2 safe) returns
    rcases next with ⟨t, d', turn, left, nonempty, rep'⟩ | ⟨out, turn, failed, latched⟩
    · have pos := List.length_pos_of_ne_nil nonempty
      have shorter : t.rest.length < fuel := by
        rw [split, List.length_append] at hfuel
        rw [left]
        omega
      have clear' : t.Clear dispatch := fun u visits => clear u (.turn turn visits)
      obtain ⟨out, pieces, run, more⟩ := ih clear' rep' shorter
      exact ⟨out, piece :: pieces, by rw [WhileLoop.run, turn, ← run],
        .again (left ▸ split) nonempty parsed consumed turn rep'.noError more⟩
    · exact ⟨out, [piece], by rw [WhileLoop.run, turn],
        .stop split parsed consumed turn failed latched⟩

/-- Every turn of a call on an error-free proto that stands where a decoder stands does so too. -/
theorem Represents.visits (rep : Represents now d) {s : ConsumeLoop σ}
    (visits : Visits (consumeTurn dispatch) ⟨now, buf, 0⟩ s) : ∃ d, Represents s.now d := by
  have inv : s.Inv dispatch (d.run dispatch buf) := by
    refine visits.inv (ConsumeLoop.Inv dispatch (d.run dispatch buf)) ?_ ⟨d, rep, rfl⟩
    intro s t inv again
    have turn := consumeTurn_spec inv
    rw [again] at turn
    exact turn.1
  obtain ⟨d', rep', -⟩ := inv
  exact ⟨d', rep'⟩

/-- A call goes through its buffer exactly if no turn of it stores a record through a null
pointer and the handler comes back. -/
theorem Represents.consumesAll_iff (rep : Represents now d) :
    now.ConsumesAll dispatch buf ↔ ConsumeLoop.Clear dispatch ⟨now, buf, 0⟩ := by
  have unfolded : ampConsumeBytes dispatch now buf =
      WhileLoop.run .outOfFuel (consumeTurn dispatch) (buf.length + 1) ⟨now, buf, 0⟩ := by
    rw [ampConsumeBytes, if_neg (by simp [rep.noError])]
  constructor
  · rintro ⟨out, pieces, rest, run, -⟩ s visits hrest
    rw [unfolded] at run
    obtain ⟨d', rep'⟩ := rep.visits visits
    obtain ⟨fuel, runs⟩ := visits.run_ok run
    obtain ⟨c, tail, cons⟩ := List.exists_cons_of_ne_nil hrest
    have turns : ∃ turn, consumeTurn dispatch s = .ok turn := by
      cases fuel with
      | zero => cases runs
      | succ fuel =>
        cases hturn : consumeTurn dispatch s with
        | error e =>
          rw [WhileLoop.run, hturn] at runs
          cases runs
        | ok turn => exact ⟨turn, rfl⟩
    obtain ⟨turn, turns⟩ := turns
    unfold consumeTurn at turns
    rw [cons] at turns
    dsimp only at turns
    rw [← cons] at turns
    constructor
    · intro store
      rw [rep'.parseBox_nullStore store] at turns
      cases turns
    · intro r parsed status
      rw [parsed] at turns
      simp only [status, ne_eq, not_false_eq_true, ↓reduceIte, dispatchTurn] at turns
      cases hdispatch : dispatch r.mem r.box s.now.own with
      | error e =>
        rw [hdispatch] at turns
        cases turns
      | ok done => exact ⟨done, rfl⟩
  · intro clear
    obtain ⟨out, pieces, run, consumes⟩ := clear.consumes rep (Nat.lt_succ_self buf.length)
    obtain ⟨rest, split, outcome⟩ := consumes.flatten
    exact ⟨out, pieces, rest, unfolded.trans run, consumes, split, outcome⟩

/-! ## Every reachable proto -/

/-- From every reachable state without an error, a call of `amp_parse_box` on some bytes makes
progress exactly if it does not store a record through a null pointer, and a call of
`amp_consume_bytes` goes through its buffer exactly if none of its turns does and the handler comes
back from every box. -/
theorem parse_progress (dispatch : DispatchBox σ) {now : Consumer σ}
    (reach : now.proto.Reachable) (noError : now.proto.error = 0) :
    (∀ buf, buf ≠ [] → (now.Parses buf ↔ ¬ now.NullStore buf)) ∧
      ∀ buf, now.ConsumesAll dispatch buf ↔
        ∀ s, Visits (consumeTurn dispatch) ⟨now, buf, 0⟩ s → s.rest ≠ [] →
          ¬ s.now.NullStore s.rest ∧ s.HandlerReturns dispatch := by
  obtain ⟨phase, atPhase⟩ := reach.atPhase noError
  have rep : Represents now ⟨phase, now.proto.box, now.mem, now.own⟩ :=
    ⟨noError, atPhase, rfl, rfl, rfl⟩
  exact ⟨fun buf hbuf => rep.parses_iff hbuf, fun buf => rep.consumesAll_iff⟩

/-- As long as there is a box one call makes progress, whatever memory there is for records. -/
theorem Consumer.not_nullStore {now : Consumer σ} (live : now.proto.box ≠ none)
    (buf : List UInt8) : ¬ now.NullStore buf := fun store => live store.1

/-- A new proto on the first bytes of a key. -/
theorem parse_progress_fresh :
    ∃ proto, ampNewProto plenty (.zeros _) (.zeros _) = .ok (some proto, plenty) ∧
      Consumer.Parses (σ := Nat) ⟨proto.toParser, plenty, 0⟩ [0, 3, 97] := by
  obtain ⟨proto, fresh⟩ := ampNewProto_plenty (.zeros _) (.zeros _)
  have parser := (ampNewProto_ok fresh).1
  have noError : proto.error = 0 := congrArg Parser.error parser
  have live : proto.box ≠ none := by
    rw [show proto.box = _ from congrArg Parser.box parser]
    exact Option.some_ne_none _
  exact ⟨proto, fresh, ((parse_progress countBoxes (.fresh fresh) noError).1 [0, 3, 97]
    (by decide)).2 (Consumer.not_nullStore live _)⟩

/-- A reset that finds no memory for a box leaves a proto without an error on which neither call
returns, given a record with the key `a` and the value `b`. -/
theorem parse_progress_null :
    ∃ now : Consumer Nat, now.proto.Reachable ∧ now.proto.error = 0 ∧
      ampParseBox now.mem now.proto now.proto.box 0 [0, 1, 97, 0, 1, 98] =
        .error .nullDereference ∧
      ampConsumeBytes countBoxes now [0, 1, 97, 0, 1, 98] = .error .nullDereference ∧
      ¬ now.Parses [0, 1, 97, 0, 1, 98] ∧ ¬ now.ConsumesAll countBoxes [0, 1, 97, 0, 1, 98] := by
  obtain ⟨proto, fresh⟩ := ampNewProto_plenty (.zeros _) (.zeros _)
  let mem : Mem := fun n _ => n ≠ 0
  let now : Consumer Nat := ⟨(proto.toParser.reset mem).1, (proto.toParser.reset mem).2, 0⟩
  have rep : Represents now ⟨.keyLenHigh, none, now.mem, 0⟩ :=
    ⟨rfl, Parser.at_reset mem proto.toParser, rfl, rfl, rfl⟩
  have store : now.NullStore [0, 1, 97, 0, 1, 98] := by
    refine ⟨rfl, rfl, ⟨[97], [98]⟩, [], ?_, by decide, by decide⟩
    rw [rep.atPhase.pending_eq]
    simp [Phase.pending, Wire.readItem]
  have parsed := rep.parseBox_nullStore store 0
  have consumed := rep.consume_nullStore countBoxes (by decide) store
  refine ⟨now, .reset mem (.fresh fresh), rfl, parsed, consumed, ?_, ?_⟩
  · intro parses
    exact (rep.parses_iff (by decide)).1 parses store
  · rintro ⟨out, pieces, rest, run, -⟩
    rw [consumed] at run
    cases run

end LibAmp
