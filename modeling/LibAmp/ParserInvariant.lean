import LibAmp.AllocFailure

/-!
# The fields of the parser

`Parser.StateInv` says, for each state, what the length fields and counters of a proto can be. It
holds of every reachable proto, with or without an error, and of every state the two loops pass
through. So every `memcpy` of `amp_parse_box` stays inside the caller's chunk and the proto's
arrays, and the branch for an undeclared state is dead.

## Main results

* `parseTurn_stateInv`: one turn of `amp_parse_box` keeps the invariant
* `parser_state_invariant`: what holds of every reachable proto
-/

namespace LibAmp

open WhileLoop (Turn Outcome TurnOutcome Visits)

/-! ## The invariant -/

/-- The length of a key that is being read or held. -/
def Parser.KeyLenInv (p : Parser) : Prop := 1 ≤ p.keyLen ∧ p.keyLen ≤ 255

/-- A complete key is held, and the byte behind it, or one before, is a NUL. -/
def Parser.KeyHeld (p : Parser) : Prop :=
  p.KeyLenInv ∧ p.keyDataFetched = p.keyLen ∧ 0 ∈ p.keyData.bytes

/-- What the fields are in each state. A value that is complete has been stored, unless it has
no bytes or storing it failed. -/
def Parser.StateInv (p : Parser) : Prop :=
  match p.state with
  | .keyLenRead =>
    (p.keyLen = -1 ∨ p.keyLen = 0) ∧ p.valLen = -1 ∧ p.keyDataFetched = 0 ∧ p.valDataFetched = 0
  | .keyDataRead =>
    p.KeyLenInv ∧ 0 ≤ p.keyDataFetched ∧ p.keyDataFetched < p.keyLen ∧ p.valLen = -1 ∧
      p.valDataFetched = 0
  | .valLenRead =>
    p.KeyHeld ∧ (p.valLen = -1 ∨ 256 ∣ p.valLen ∧ 0 ≤ p.valLen ∧ p.valLen ≤ 65280) ∧
      p.valDataFetched = 0
  | .valDataRead =>
    p.KeyHeld ∧ 0 ≤ p.valLen ∧ p.valLen ≤ 65535 ∧ 0 ≤ p.valDataFetched ∧
      p.valDataFetched ≤ p.valLen ∧ (p.valDataFetched = p.valLen → p.valLen = 0 ∨ p.error ≠ 0)
  | .undeclared _ => False

theorem Parser.stateInv_fresh (keyData : Buffer (256 + 1)) (valData : Buffer (256 * 256))
    (box : AmpBox) : (Parser.fresh keyData valData box).StateInv :=
  ⟨.inl rfl, rfl, rfl, rfl⟩

theorem Parser.stateInv_reset (mem : Mem) (p : Parser) : (p.reset mem).1.StateInv :=
  ⟨.inl rfl, rfl, rfl, rfl⟩

/-- Between two packets neither the box nor the error matters. -/
theorem Parser.StateInv.frame {p : Parser} (inv : p.StateInv) (state : p.state = .keyLenRead)
    (error : AmpError) (box : Option AmpBox) :
    ({ p with error := error, box := box } : Parser).StateInv := by
  unfold StateInv at inv ⊢
  simp only [state] at inv ⊢
  exact inv

/-! ## The copies of one turn -/

/-- `memcpy(&dst[off], buf + idx, n)` has a length, reads inside a chunk of `len` bytes and
writes inside an array of `cap` bytes. -/
def CopyInside (cap off idx n len : Int) : Prop :=
  0 ≤ n ∧ 0 ≤ idx ∧ idx + n ≤ len ∧ 0 ≤ off ∧ off + n ≤ cap

/-- The bytes one turn copies, `bytes_needed` or as many as there are. -/
def ParseLoop.copied (s : ParseLoop) (bytesNeeded : Int) : Int :=
  if (s.rest.length : Int) < bytesNeeded then s.rest.length else bytesNeeded

/-- The copies of the present turn are in bounds, and so is the NUL behind a key. -/
def ParseLoop.CopiesInside (len : Int) (s : ParseLoop) : Prop :=
  match s.proto.state with
  | .keyDataRead =>
    let n := s.copied (s.proto.keyLen - s.proto.keyDataFetched)
    CopyInside (256 + 1) s.proto.keyDataFetched s.idx n len ∧
      s.proto.keyDataFetched + n < 256 + 1
  | .valDataRead =>
    let n := s.copied (s.proto.valLen - s.proto.valDataFetched)
    CopyInside (256 * 256) s.proto.valDataFetched s.idx n len
  | _ => True

/-- The loop invariant of `amp_parse_box` on a chunk of `len` bytes. -/
structure ParseLoop.StateInv (len : Int) (s : ParseLoop) : Prop where
  fields : s.proto.StateInv
  noError : s.proto.error = 0
  idx_nonneg : 0 ≤ s.idx
  idx_add : s.idx + s.rest.length = len

theorem ParseLoop.StateInv.copiesInside {len : Int} {s : ParseLoop} (inv : s.StateInv len) :
    s.CopiesInside len := by
  obtain ⟨fields, noError, nonneg, all⟩ := inv
  unfold CopiesInside
  unfold Parser.StateInv at fields
  cases state : s.proto.state with
  | keyLenRead | valLenRead | undeclared => trivial
  | keyDataRead =>
    rw [state] at fields
    obtain ⟨⟨pos, le⟩, fetched, more, -⟩ := fields
    simp only [CopyInside, copied]
    split <;> omega
  | valDataRead =>
    rw [state] at fields
    obtain ⟨-, pos, le, fetched, most, -⟩ := fields
    simp only [CopyInside, copied]
    split <;> omega

/-! ## One turn -/

/-- What one turn of `amp_parse_box` owes: it faults at most on a missing box, goes round with
the invariant, and leaves with the fields in order; after a full box between two packets. -/
abbrev ParseLoop.Turned (len : Int) (s : ParseLoop) :
    Except Fault (Turn ParseLoop ParseResult) → Prop :=
  Outcome (fun e => e = .nullDereference ∧ s.box = none)
    (TurnOutcome (·.StateInv len)
      (fun r => r.proto.StateInv ∧ (r.status ≠ 0 → r.proto.state = .keyLenRead)))

variable {len : Int} {s : ParseLoop}

/-- Moving on by `n` of the remaining bytes. -/
theorem ParseLoop.StateInv.advance (inv : s.StateInv len) {n : Int} {proto : Parser}
    (pos : 0 ≤ n) (le : n ≤ s.rest.length) (fields : proto.StateInv) (noError : proto.error = 0) :
    (s.advance n proto).StateInv len := by
  have nonneg := inv.idx_nonneg
  have all := inv.idx_add
  refine ⟨fields, noError, ?_, ?_⟩ <;> simp only [ParseLoop.advance]
  · omega
  · rw [List.length_drop]
    omega

theorem readKeyLen_inv (inv : s.StateInv len) (state : s.proto.state = .keyLenRead) {c : UInt8}
    (one : 1 ≤ s.rest.length) : s.Turned len (.ok (readKeyLen s c)) := by
  have fields := inv.fields
  simp only [Parser.StateInv, state] at fields
  obtain ⟨keyLen, valLen, keyFetched, valFetched⟩ := fields
  have range := c.toNat_lt
  unfold readKeyLen
  split
  · next first =>
    split
    · refine ⟨?_, fun h => absurd rfl h⟩
      simp only [ParseLoop.advance, Parser.StateInv, state]
      exact ⟨keyLen, valLen, keyFetched, valFetched⟩
    · refine inv.advance (by omega) (by omega) ?_ inv.noError
      simp only [Parser.StateInv, state]
      exact ⟨.inr trivial, valLen, keyFetched, valFetched⟩
  · split
    · exact ⟨⟨.inl rfl, valLen, keyFetched, valFetched⟩, fun _ => rfl⟩
    · next nonzero =>
      have pos : c.toNat ≠ 0 := fun h => nonzero (UInt8.toNat_inj.1 h)
      refine inv.advance (by omega) (by omega) ⟨⟨?_, ?_⟩, ?_, ?_, valLen, valFetched⟩ inv.noError
        <;> dsimp only <;> omega

theorem readValLen_inv (inv : s.StateInv len) (state : s.proto.state = .valLenRead) {c : UInt8}
    (one : 1 ≤ s.rest.length) : s.Turned len (.ok (readValLen s c)) := by
  have fields := inv.fields
  simp only [Parser.StateInv, state] at fields
  obtain ⟨held, valLen, valFetched⟩ := fields
  have range := c.toNat_lt
  unfold readValLen
  split
  · have shifted : ((c.toNat : Int) <<< (8 : Nat)) = c.toNat * 256 := Int.shiftLeft_eq _ 8
    refine inv.advance (by omega) (by omega) ?_ inv.noError
    simp only [Parser.StateInv, state, shifted]
    exact ⟨held, .inr (by omega), valFetched⟩
  · next second =>
    obtain ⟨⟨high, hhigh⟩, pos, le⟩ := valLen.resolve_left second
    have sum : Int.lor s.proto.valLen c.toNat = s.proto.valLen + c.toNat := by
      obtain ⟨n, hn⟩ := Int.eq_ofNat_of_zero_le (show 0 ≤ high by omega)
      have shift : s.proto.valLen = ((n <<< 8 : Nat) : Int) := by
        rw [Nat.shiftLeft_eq, hhigh, hn]
        omega
      rw [shift]
      change ((n <<< 8 ||| c.toNat : Nat) : Int) = _
      rw [← Nat.shiftLeft_add_eq_or_of_lt range, Nat.cast_add]
    refine inv.advance (by omega) (by omega) ⟨held, ?_⟩ inv.noError
    simp only [sum, valFetched]
    omega

theorem readKeyData_inv (inv : s.StateInv len) (state : s.proto.state = .keyDataRead)
    (one : 1 ≤ s.rest.length) : s.Turned len (readKeyData s) := by
  have fields := inv.fields
  simp only [Parser.StateInv, state] at fields
  obtain ⟨⟨pos, le⟩, fetched, more, valLen, valFetched⟩ := fields
  simp only [readKeyData]
  split
  · next part =>
    obtain ⟨b, copied, -⟩ := memcpy_ok s.proto.keyData s.proto.keyDataFetched s.rest
      s.rest.length (by omega)
    rw [copied]
    refine inv.advance (by omega) (by omega) ?_ inv.noError
    simp only [Parser.StateInv, state]
    exact ⟨⟨pos, le⟩, by omega, by omega, valLen, valFetched⟩
  · next whole =>
    obtain ⟨b, copied, -⟩ := memcpy_ok s.proto.keyData s.proto.keyDataFetched s.rest
      (s.proto.keyLen - s.proto.keyDataFetched) (by omega)
    obtain ⟨b', terminated, bytes⟩ := memcpy_ok b
      (s.proto.keyDataFetched + (s.proto.keyLen - s.proto.keyDataFetched)) [0] 1 (by simp; omega)
    rw [copied]
    dsimp only
    rw [terminated]
    have nul : 0 ∈ b'.bytes := by
      rw [bytes, overwrite]
      simp
    refine inv.advance (by omega) (by omega) ⟨⟨⟨pos, le⟩, ?_, nul⟩, .inl valLen, valFetched⟩
      inv.noError
    dsimp only
    omega

/-- A put whose buffer is long enough faults only for want of a box. -/
theorem ampPutBuf_outcome (mem : Mem) (box : Option AmpBox) (key : CString) {buf : List UInt8}
    {bufSize : Int} (room : bufSize ≤ buf.length) :
    Outcome (fun e => e = .nullDereference ∧ box = none) (fun _ => True)
      (ampPutBuf mem box key buf bufSize) := by
  have enough : ¬ bufSize > buf.length := by omega
  unfold ampPutBuf
  simp only [enough, ↓reduceDIte]
  split
  · trivial
  split
  · trivial
  split
  · trivial
  split
  · exact ⟨rfl, rfl⟩
  split
  · trivial
  split
  · trivial
  · trivial

theorem storeKeyValue_inv (mem : Mem) (box : Option AmpBox) {p : Parser} (held : p.KeyHeld)
    (le : p.valLen ≤ 65535) :
    Outcome (fun e => e = .nullDereference ∧ box = none) (fun _ => True)
      (storeKeyValue mem p box) := by
  have room : p.valLen ≤ p.valData.bytes.length := by
    rw [p.valData.length_eq]
    omega
  rw [storeKeyValue, Buffer.cstring, if_pos held.2.2]
  exact ampPutBuf_outcome mem box _ room

theorem readValData_inv (inv : s.StateInv len) (state : s.proto.state = .valDataRead)
    (one : 1 ≤ s.rest.length) : s.Turned len (readValData s) := by
  have fields := inv.fields
  simp only [Parser.StateInv, state] at fields
  obtain ⟨held, pos, le, fetched, most, -⟩ := fields
  simp only [readValData]
  split
  · next part =>
    obtain ⟨b, copied, -⟩ := memcpy_ok s.proto.valData s.proto.valDataFetched s.rest
      s.rest.length (by omega)
    rw [copied]
    refine inv.advance (by omega) (by omega) ?_ inv.noError
    simp only [Parser.StateInv, state]
    exact ⟨held, pos, le, by omega, by omega, by omega⟩
  · next whole =>
    obtain ⟨b, copied, -⟩ := memcpy_ok s.proto.valData s.proto.valDataFetched s.rest
      (s.proto.valLen - s.proto.valDataFetched) (by omega)
    rw [copied]
    dsimp only
    -- the fields as they are when the record is stored
    let p : Parser := { s.proto with
      valData := b
      valDataFetched := s.proto.valDataFetched + (s.proto.valLen - s.proto.valDataFetched) }
    have stored := storeKeyValue_inv s.mem s.box (p := p) held le
    simp only [ParseLoop.advance]
    split
    · next failed =>
      rw [failed] at stored
      exact stored
    · next r done =>
      split
      · next refused =>
        refine ⟨?_, fun h => absurd rfl h⟩
        simp only [Parser.StateInv, state]
        exact ⟨held, pos, le, by omega, by omega, fun _ => .inr refused⟩
      · next accepted =>
        have nonneg := inv.idx_nonneg
        have all := inv.idx_add
        refine ⟨⟨.inl rfl, rfl, rfl, rfl⟩, by simpa using accepted, ?_, ?_⟩
        · dsimp only
          omega
        · simp only [List.length_drop]
          omega

/-- One turn of the loop of `amp_parse_box`. -/
theorem parseTurn_stateInv (inv : s.StateInv len) (bytesConsumed : Int) :
    s.Turned len (parseTurn bytesConsumed s) := by
  have fields := inv.fields
  unfold parseTurn
  rcases hrest : s.rest with _ | ⟨c, tail⟩
  · exact ⟨fields, fun h => absurd rfl h⟩
  have one : 1 ≤ s.rest.length := by simp [hrest]
  cases state : s.proto.state with
  | keyLenRead => exact readKeyLen_inv inv state one
  | keyDataRead => exact readKeyData_inv inv state one
  | valLenRead => exact readValLen_inv inv state one
  | valDataRead => exact readValData_inv inv state one
  | undeclared n =>
    simp only [Parser.StateInv, state] at fields

/-! ## Whole calls -/

/-- A call of `amp_parse_box` on a proto without an error begins with the invariant. -/
theorem ParseLoop.StateInv.entry {p : Parser} (fields : p.StateInv) (noError : p.error = 0)
    (box : Option AmpBox) (mem : Mem) (buf : List UInt8) :
    ParseLoop.StateInv buf.length ⟨p, box, mem, buf, 0⟩ :=
  ⟨fields, noError, le_rfl, by simp⟩

theorem ampParseBox_stateInv {mem : Mem} {p : Parser} {box : Option AmpBox} {n : Int}
    {buf : List UInt8} {r : ParseResult} (fields : p.StateInv) (noError : p.error = 0)
    (h : ampParseBox mem p box n buf = .ok r) :
    r.proto.StateInv ∧ (r.status ≠ 0 → r.proto.state = .keyLenRead) :=
  WhileLoop.run_left (ParseLoop.StateInv buf.length) (fun _ inv => parseTurn_stateInv inv n)
    (.entry fields noError box mem buf) h

variable {σ : Type} {dispatch : DispatchBox σ}

/-- The invariant of the loop of `amp_consume_bytes`. -/
def ConsumeLoop.StateInv (s : ConsumeLoop σ) : Prop :=
  s.now.proto.StateInv ∧ s.now.proto.error = 0

theorem consumeTurn_stateInv {s : ConsumeLoop σ} (inv : s.StateInv) :
    Outcome (fun _ => True) (TurnOutcome ConsumeLoop.StateInv (fun r => r.2.proto.StateInv))
      (consumeTurn dispatch s) := by
  obtain ⟨fields, noError⟩ := inv
  unfold consumeTurn
  split
  · exact fields
  split
  · trivial
  next r hparse =>
  obtain ⟨parsed, full⟩ := ampParseBox_stateInv fields noError hparse
  dsimp only
  split
  · next status =>
    have state := full status
    unfold dispatchTurn
    split
    · trivial
    next done _ =>
    dsimp only
    split
    · exact parsed.frame state done.ret done.box
    · next accepted =>
      exact ⟨parsed.frame state done.ret (ampNewBox .box done.mem).1, by simpa using accepted⟩
  · split
    · exact parsed
    · next clean => exact ⟨parsed, by simpa using clean⟩

/-- Every reachable proto is in order, whether an error is latched or not. -/
theorem Parser.Reachable.stateInv {p : Parser} (reach : p.Reachable) : p.StateInv := by
  induction reach with
  | fresh h =>
    rw [(ampNewProto_ok h).1]
    exact stateInv_fresh _ _ _
  | consume before h ih =>
    exact ampConsumeBytes_left (P := fun now => now.proto.StateInv) ConsumeLoop.StateInv
      (fun _ inv => consumeTurn_stateInv inv) ih (fun clean => ⟨ih, clean⟩) h
  | reset mem before ih => exact stateInv_reset mem _

/-- Every reachable proto has its fields in order. From one without an error, whatever bytes come
and whatever the handler does, each call of `amp_parse_box` and each turn of its loop finds them
in order too, copies only inside the chunk and the arrays, and runs into no bounds. -/
theorem parser_state_invariant {p : Parser} (reach : p.Reachable) :
    p.StateInv ∧
      (p.error = 0 → ∀ (dispatch : DispatchBox σ) (mem : Mem) (own : σ) (buf : List UInt8)
        (s : ConsumeLoop σ), Visits (consumeTurn dispatch) ⟨⟨p, mem, own⟩, buf, 0⟩ s →
        s.now.proto.StateInv ∧
          ∀ t, Visits (parseTurn s.bytesConsumed) s.parseEntry t →
            t.proto.StateInv ∧ t.CopiesInside s.rest.length ∧
              parseTurn s.bytesConsumed t ≠ .error .outOfBounds) := by
  refine ⟨reach.stateInv, ?_⟩
  intro noError dispatch mem own buf s visits
  have outer : s.StateInv := visits.outcome_inv (fun s inv => consumeTurn_stateInv inv)
    ⟨reach.stateInv, noError⟩
  refine ⟨outer.1, ?_⟩
  intro t inside
  have inner : t.StateInv s.rest.length :=
    inside.outcome_inv (fun t inv => parseTurn_stateInv inv s.bytesConsumed)
      (.entry outer.1 outer.2 s.now.proto.box s.now.mem s.rest)
  refine ⟨inner.fields, inner.copiesInside, ?_⟩
  intro fault
  have turned := parseTurn_stateInv inner s.bytesConsumed
  rw [fault] at turned
  cases turned.1

/-- A proto in the middle of a key of three bytes. -/
theorem parser_state_invariant_midKey :
    ∃ p : Parser, p.state = .keyDataRead ∧ p.keyDataFetched = 1 ∧ p.StateInv := by
  have midKey : ∃ proto now, ampNewProto plenty (.zeros _) (.zeros _) = .ok (some proto, plenty) ∧
      ampConsumeBytes countBoxes ⟨proto.toParser, plenty, 0⟩ [0, 3, 97] = .ok (0, now) ∧
      now.proto.state = .keyDataRead ∧ now.proto.keyDataFetched = 1 :=
    ⟨_, _, rfl, rfl, rfl, rfl⟩
  obtain ⟨proto, now, fresh, consumed, state, fetched⟩ := midKey
  exact ⟨now.proto, state, fetched, (parser_state_invariant (σ := Nat)
    (.consume (.fresh fresh) consumed)).1⟩

end LibAmp
