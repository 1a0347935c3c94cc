import Mathlib.Data.Int.Bitwise
import LibAmp.Lib.Loop
import LibAmp.Proto

/-!
# The parser (`amp_parse_box`, `amp_consume_bytes`)

Both functions are loops over the bytes of one buffer, which carry the remaining bytes instead
of an index into them. Their fuel is always enough (`LibAmp.ParserSpec`).
-/

namespace LibAmp

open WhileLoop (Turn)

/-! ## `amp_parse_box` -/

/-- The locals of `amp_parse_box`; `rest` is the buffer from `idx` on. -/
structure ParseLoop where
  proto : Parser
  box : Option AmpBox
  mem : Mem
  rest : List UInt8
  idx : Int

structure ParseResult where
  status : Int
  proto : Parser
  box : Option AmpBox
  mem : Mem
  bytesConsumed : Int

/-- Return from `amp_parse_box` with `*bytesConsumed = idx`. -/
def ParseLoop.leave (s : ParseLoop) (status : Int) : Turn ParseLoop ParseResult :=
  .leave ⟨status, s.proto, s.box, s.mem, s.idx⟩

/-- Move on by `n` bytes with the given parser fields. -/
def ParseLoop.advance (s : ParseLoop) (n : Int) (proto : Parser) : ParseLoop :=
  { s with proto := proto, rest := s.rest.drop n.toNat, idx := s.idx + n }

/-- `amp_put_bytes(box, key_data, val_data, val_len)`, which reads `key_data` as a C string. -/
def storeKeyValue (mem : Mem) (proto : Parser) (box : Option AmpBox) : Except Fault PutResult :=
  match proto.keyData.cstring with
  | .error e => .error e
  | .ok key => ampPutBytes mem box key proto.valData.bytes proto.valLen

/-- `case KEY_LEN_READ`, at the byte `c`. -/
def readKeyLen (s : ParseLoop) (c : UInt8) : Turn ParseLoop ParseResult :=
  if s.proto.keyLen = -1 then
    if c ≠ 0 then
      (s.advance 1 { s.proto with error := ampBadKeySize }).leave 0
    else .again (s.advance 1 { s.proto with keyLen := 0 })
  else if c = 0 then
    -- the NUL key: `key_len` was 0 for a moment and is reset
    (s.advance 1 { s.proto with keyLen := -1, state := .keyLenRead }).leave 1
  else .again (s.advance 1 { s.proto with keyLen := c.toNat, state := .keyDataRead })

/-- `case KEY_DATA_READ`. -/
def readKeyData (s : ParseLoop) : Except Fault (Turn ParseLoop ParseResult) :=
  let bytesRemaining : Int := s.rest.length
  let bytesNeeded := s.proto.keyLen - s.proto.keyDataFetched
  if bytesRemaining < bytesNeeded then
    match memcpy s.proto.keyData s.proto.keyDataFetched s.rest bytesRemaining with
    | .error e => .error e
    | .ok keyData =>
      .ok (.again (s.advance bytesRemaining
        { s.proto with
          keyData := keyData
          keyDataFetched := s.proto.keyDataFetched + bytesRemaining }))
  else
    match memcpy s.proto.keyData s.proto.keyDataFetched s.rest bytesNeeded with
    | .error e => .error e
    | .ok keyData =>
      match memcpy keyData (s.proto.keyDataFetched + bytesNeeded) [0] 1 with
      | .error e => .error e
      | .ok keyData =>
        .ok (.again (s.advance bytesNeeded
          { s.proto with
            keyData := keyData
            keyDataFetched := s.proto.keyDataFetched + bytesNeeded
            state := .valLenRead }))

/-- `case VAL_LEN_READ`, at the byte `c`. -/
def readValLen (s : ParseLoop) (c : UInt8) : Turn ParseLoop ParseResult :=
  if s.proto.valLen = -1 then
    .again (s.advance 1 { s.proto with valLen := (c.toNat : Int) <<< (8 : Nat) })
  else
    .again (s.advance 1
      { s.proto with valLen := Int.lor s.proto.valLen c.toNat, state := .valDataRead })

/-- `case VAL_DATA_READ`. -/
def readValData (s : ParseLoop) : Except Fault (Turn ParseLoop ParseResult) :=
  let bytesRemaining : Int := s.rest.length
  let bytesNeeded := s.proto.valLen - s.proto.valDataFetched
  if bytesRemaining < bytesNeeded then
    match memcpy s.proto.valData s.proto.valDataFetched s.rest bytesRemaining with
    | .error e => .error e
    | .ok valData =>
      .ok (.again (s.advance bytesRemaining
        { s.proto with
          valData := valData
          valDataFetched := s.proto.valDataFetched + bytesRemaining }))
  else
    match memcpy s.proto.valData s.proto.valDataFetched s.rest bytesNeeded with
    | .error e => .error e
    | .ok valData =>
      let s := s.advance bytesNeeded
        { s.proto with
          valData := valData
          valDataFetched := s.proto.valDataFetched + bytesNeeded }
      match storeKeyValue s.mem s.proto s.box with
      | .error e => .error e
      | .ok r =>
        let s := { s with box := r.box, mem := r.mem, proto := { s.proto with error := r.ret } }
        if r.ret ≠ 0 then .ok (s.leave 0)
        else
          .ok (.again { s with
            proto := { s.proto with
              keyLen := -1
              valLen := -1
              keyDataFetched := 0
              valDataFetched := 0
              state := .keyLenRead } })

/-- One turn of the loop. An undeclared state leaves `*bytesConsumed` as the caller had it. -/
def parseTurn (bytesConsumed : Int) (s : ParseLoop) :
    Except Fault (Turn ParseLoop ParseResult) :=
  match s.rest with
  | [] => .ok (s.leave 0)
  | c :: _ =>
    match s.proto.state with
    | .keyLenRead => .ok (readKeyLen s c)
    | .keyDataRead => readKeyData s
    | .valLenRead => .ok (readValLen s c)
    | .valDataRead => readValData s
    | .undeclared _ =>
      .ok (.leave ⟨0, { s.proto with error := ampInternalError }, s.box, s.mem, bytesConsumed⟩)

def ampParseBox (mem : Mem) (proto : Parser) (box : Option AmpBox) (bytesConsumed : Int)
    (buf : List UInt8) : Except Fault ParseResult :=
  WhileLoop.run .outOfFuel (parseTurn bytesConsumed) (2 * buf.length + 2) ⟨proto, box, mem, buf, 0⟩

/-! ## `amp_consume_bytes` -/

/-- What a `dispatch_box` handler returns and leaves behind: the `box` field of the proto and
the handler's own state. -/
structure Dispatched (σ : Type) where
  ret : Int
  box : Option AmpBox
  mem : Mem
  own : σ

/-- A handler for complete boxes. It works on its own state `σ`, which for the handler of the
library is the dispatcher half of the proto and what its callbacks own, and may change
`proto->box`; the parser fields are in their initial state while it runs. -/
abbrev DispatchBox (σ : Type) := Mem → Option AmpBox → σ → Except Fault (Dispatched σ)

/-- A proto together with everything `amp_consume_bytes` may change. -/
structure Consumer (σ : Type) where
  proto : Parser
  mem : Mem
  own : σ

/-- The locals of `amp_consume_bytes`; `rest` is the buffer from `idx` on. -/
structure ConsumeLoop (σ : Type) where
  now : Consumer σ
  rest : List UInt8
  bytesConsumed : Int

variable {σ : Type}

/-- A full box: dispatch it and start on a new one, whether there is memory for it or not. -/
def dispatchTurn (dispatch : DispatchBox σ) (s : ConsumeLoop σ) :
    Except Fault (Turn (ConsumeLoop σ) (Int × Consumer σ)) :=
  match dispatch s.now.mem s.now.proto.box s.now.own with
  | .error e => .error e
  | .ok r =>
    let proto := { s.now.proto with error := r.ret, box := r.box }
    if proto.error ≠ 0 then .ok (.leave (proto.error, ⟨proto, r.mem, r.own⟩))
    else
      let (box, mem) := ampNewBox .box r.mem
      .ok (.again { s with now := ⟨{ proto with box := box }, mem, r.own⟩ })

def consumeTurn (dispatch : DispatchBox σ) (s : ConsumeLoop σ) :
    Except Fault (Turn (ConsumeLoop σ) (Int × Consumer σ)) :=
  match s.rest with
  | [] => .ok (.leave (0, s.now))
  | _ :: _ =>
    match ampParseBox s.now.mem s.now.proto s.now.proto.box s.bytesConsumed s.rest with
    | .error e => .error e
    | .ok r =>
      let s : ConsumeLoop σ :=
        { now := ⟨{ r.proto with box := r.box }, r.mem, s.now.own⟩
          rest := s.rest.drop r.bytesConsumed.toNat
          bytesConsumed := r.bytesConsumed }
      if r.status ≠ 0 then dispatchTurn dispatch s
      else if s.now.proto.error ≠ 0 then .ok (.leave (s.now.proto.error, s.now))
      else .ok (.again s)

def ampConsumeBytes (dispatch : DispatchBox σ) (now : Consumer σ) (buf : List UInt8) :
    Except Fault (Int × Consumer σ) :=
  if now.proto.error ≠ 0 then .ok (ampProtoError, now)
  else WhileLoop.run .outOfFuel (consumeTurn dispatch) (buf.length + 1) ⟨now, buf, 0⟩

/-- Feed chunk after chunk and collect the return values. -/
def feed (dispatch : DispatchBox σ) (now : Consumer σ) :
    List (List UInt8) → Except Fault (List Int × Consumer σ)
  | [] => .ok ([], now)
  | chunk :: chunks =>
    match ampConsumeBytes dispatch now chunk with
    | .error e => .error e
    | .ok (ret, now) =>
      match feed dispatch now chunks with
      | .error e => .error e
      | .ok (rets, now) => .ok (ret :: rets, now)

/-- Feed chunks up to the first that is answered with an error, and hand back that error. -/
def feedUntilError (dispatch : DispatchBox σ) (now : Consumer σ) :
    List (List UInt8) → Except Fault (Int × Consumer σ)
  | [] => .ok (0, now)
  | chunk :: chunks =>
    match ampConsumeBytes dispatch now chunk with
    | .error e => .error e
    | .ok (ret, now) =>
      if ret ≠ 0 then .ok (ret, now) else feedUntilError dispatch now chunks

end LibAmp
