import LibAmp.ProtoOnHeap

/-!
# The parser on the heap (`amp_parse_box`)

The loop over the bytes of a buffer, with the fields of the proto in its block and the box at the
end of a pointer. The cases of the switch that only work on the fields of the proto are those of
`LibAmp.Parser`; the one that stores a key and its value is given here.
-/

namespace LibAmp.OnHeap

open Heap Linked Separation Assertion
open WhileLoop (Turn)

/-! ## The function -/

/-- The proto with other parser fields. -/
def ProtoStruct.withParser (p : ProtoStruct) (q : Parser) : ProtoStruct :=
  { p with
    state := q.state
    error := q.error
    keyLen := q.keyLen
    keyData := q.keyData
    keyDataFetched := q.keyDataFetched
    valLen := q.valLen
    valData := q.valData
    valDataFetched := q.valDataFetched }

/-- The locals of `amp_parse_box`: the allocator, the buffer from `idx` on, and `idx`. -/
abbrev ParseState := BlockAllocator × List UInt8 × Int

/-- What `amp_parse_box` returns, with `*bytesConsumed`. -/
abbrev ParseReturn := Int × Int × BlockAllocator

/-- The locals and the fields of the proto, for the cases that do not look at the box. -/
def fieldsOf (p : ProtoStruct) (s : ParseState) : ParseLoop where
  proto := p.parser none
  box := none
  mem := s.1.serves
  rest := s.2.1
  idx := s.2.2

/-- Store the fields a case has changed. -/
def storeFields (proto : Ptr) (p : ProtoStruct) (a : BlockAllocator) :
    Turn ParseLoop ParseResult → Program (Turn ParseState ParseReturn)
  | .again s => do
    write proto (.proto (p.withParser s.proto))
    return .again (a, s.rest, s.idx)
  | .leave r => do
    write proto (.proto (p.withParser r.proto))
    return .leave (r.status, r.bytesConsumed, a)

/-- The end of `case VAL_DATA_READ`, once a value is complete. -/
def storePair (proto box : Ptr) (p : ProtoStruct) (s : ParseState) :
    Program (Turn ParseState ParseReturn) := do
  match p.keyData.cstring with
  | .error _ => fail .undefined
  | .ok key =>
    let (ret, a) ← ampPutBuf s.1 box key p.valData.bytes p.valLen
    write proto (.proto { p with error := ret })
    if ret ≠ 0 then return .leave (0, s.2.2, a)
    else
      write proto (.proto
        { p with
          error := ret
          keyLen := -1
          valLen := -1
          keyDataFetched := 0
          valDataFetched := 0
          state := .keyLenRead })
      return .again (a, s.2)

/-- `case VAL_DATA_READ`. -/
def readValData (proto box : Ptr) (p : ProtoStruct) (s : ParseState) :
    Program (Turn ParseState ParseReturn) := do
  let (a, rest, idx) := s
  let bytesRemaining : Int := rest.length
  let bytesNeeded := p.valLen - p.valDataFetched
  if bytesRemaining < bytesNeeded then
    match memcpy p.valData p.valDataFetched rest bytesRemaining with
    | .error _ => fail .undefined
    | .ok valData =>
      write proto (.proto
        { p with valData := valData, valDataFetched := p.valDataFetched + bytesRemaining })
      return .again (a, rest.drop bytesRemaining.toNat, idx + bytesRemaining)
  else
    match memcpy p.valData p.valDataFetched rest bytesNeeded with
    | .error _ => fail .undefined
    | .ok valData =>
      let p := { p with valData := valData, valDataFetched := p.valDataFetched + bytesNeeded }
      write proto (.proto p)
      storePair proto box p (a, rest.drop bytesNeeded.toNat, idx + bytesNeeded)

def parseTurn (proto box : Ptr) (bytesConsumed : Int) (s : ParseState) :
    Program (Turn ParseState ParseReturn) := do
  match s.2.1 with
  | [] => return .leave (0, s.2.2, s.1)
  | c :: _ =>
    let p ← readAs viewProto proto
    match p.state with
    | .keyLenRead => storeFields proto p s.1 (readKeyLen (fieldsOf p s) c)
    | .keyDataRead =>
      match readKeyData (fieldsOf p s) with
      | .error _ => fail .undefined
      | .ok turn => storeFields proto p s.1 turn
    | .valLenRead => storeFields proto p s.1 (readValLen (fieldsOf p s) c)
    | .valDataRead => readValData proto box p s
    | .undeclared _ =>
      write proto (.proto { p with error := ampInternalError })
      return .leave (0, bytesConsumed, s.1)

def ampParseBox (a : BlockAllocator) (proto box : Ptr) (bytesConsumed : Int) (buf : List UInt8) :
    Program ParseReturn :=
  iterate (parseTurn proto box bytesConsumed) (2 * buf.length + 2) (a, buf, 0)

/-! ## What the locals stand for -/

/-- The locals of the loop, the fields of the proto and the box. -/
def parsing (q b : Ptr) (p : ProtoStruct) (t : ParseLoop) (s : ParseState) : Assertion Block :=
  fact (s.1.serves = t.mem ∧ s.2 = (t.rest, t.idx)) *
    (cell q (.proto (p.withParser t.proto)) * nullable ownsBox b t.box)

/-- What is returned, and what is left. -/
def parsed (q b : Ptr) (p : ProtoStruct) (r : ParseResult) (s : ParseReturn) : Assertion Block :=
  fact (s.1 = r.status ∧ s.2.1 = r.bytesConsumed ∧ s.2.2.serves = r.mem) *
    (cell q (.proto (p.withParser r.proto)) * nullable ownsBox b r.box)

/-- The locals as the cases that do not look at the box see them. -/
def blind (t : ParseLoop) : ParseLoop :=
  { t with proto := { t.proto with box := none }, box := none }

def blindTurn : Turn ParseLoop ParseResult → Turn ParseLoop ParseResult
  | .again t => .again (blind t)
  | .leave r => .leave { r with proto := { r.proto with box := none }, box := none }

/-- A turn that neither changes the box nor allocates. -/
def KeepsBox (t : ParseLoop) : Turn ParseLoop ParseResult → Prop
  | .again t' => t'.box = t.box ∧ t'.mem = t.mem
  | .leave r => r.box = t.box ∧ r.mem = t.mem

section Turns

variable {q b : Ptr} {p : ProtoStruct} {t : ParseLoop} {a : BlockAllocator}

theorem readKeyLen_blind (t : ParseLoop) (c : UInt8) :
    readKeyLen (blind t) c = blindTurn (readKeyLen t c) ∧ KeepsBox t (readKeyLen t c) := by
  unfold readKeyLen
  by_cases first : t.proto.keyLen = -1 <;> by_cases zero : c = 0 <;>
    simp [first, zero, blind, blindTurn, KeepsBox, ParseLoop.leave, ParseLoop.advance]

theorem readValLen_blind (t : ParseLoop) (c : UInt8) :
    readValLen (blind t) c = blindTurn (readValLen t c) ∧ KeepsBox t (readValLen t c) := by
  unfold readValLen
  by_cases first : t.proto.valLen = -1 <;>
    simp [first, blind, blindTurn, KeepsBox, ParseLoop.advance]

theorem readKeyData_blind {t : ParseLoop} {next : Turn ParseLoop ParseResult}
    (run : readKeyData t = .ok next) :
    readKeyData (blind t) = .ok (blindTurn next) ∧ KeepsBox t next := by
  unfold readKeyData at run ⊢
  dsimp only [blind] at run ⊢
  by_cases short : (t.rest.length : Int) < t.proto.keyLen - t.proto.keyDataFetched
  · simp only [short, ↓reduceIte] at run ⊢
    cases copied : memcpy t.proto.keyData t.proto.keyDataFetched t.rest t.rest.length with
    | error e => simp [copied] at run
    | ok keyData =>
      simp only [copied, Except.ok.injEq] at run ⊢
      obtain rfl := run
      exact ⟨rfl, rfl, rfl⟩
  · simp only [short, ↓reduceIte] at run ⊢
    cases copied : memcpy t.proto.keyData t.proto.keyDataFetched t.rest
        (t.proto.keyLen - t.proto.keyDataFetched) with
    | error e => simp [copied] at run
    | ok keyData =>
      simp only [copied] at run ⊢
      cases ended : memcpy keyData (t.proto.keyDataFetched +
          (t.proto.keyLen - t.proto.keyDataFetched)) [0] 1 with
      | error e => simp only [ended, reduceCtorEq] at run
      | ok keyData =>
        simp only [ended, Except.ok.injEq] at run ⊢
        obtain rfl := run
        exact ⟨rfl, rfl, rfl⟩

/-- A case that only works on the fields does on the heap what it does on values. -/
theorem storeFields_spec {next : Turn ParseLoop ParseResult} (mem : a.serves = t.mem)
    (keepsBox : KeepsBox t next) :
    Spec (cell q (.proto (p.withParser t.proto)) * nullable ownsBox b t.box)
      (storeFields q (p.withParser t.proto) a (blindTurn next))
      (turned (parsing q b p) (parsed q b p) next) := by
  cases next with
  | again t' =>
    obtain ⟨box, mem'⟩ := keepsBox
    refine Spec.step (Spec.write q (Block.proto _) _) rfl fun _ => ?_
    refine Spec.done _ (le_fact_mul ⟨mem.trans mem'.symm, rfl⟩ (le_of_eq ?_))
    rw [box]
    rfl
  | leave r =>
    obtain ⟨box, mem'⟩ := keepsBox
    refine Spec.step (Spec.write q (Block.proto _) _) rfl fun _ => ?_
    refine Spec.done _ (le_fact_mul ⟨rfl, rfl, mem.trans mem'.symm⟩ (le_of_eq ?_))
    rw [box]
    rfl

/-- The end of a value: its pair goes into the box. -/
theorem storePair_spec {rest : List UInt8} {idx : Int} {r : PutResult} (mem : a.serves = t.mem)
    (run : storeKeyValue t.mem t.proto t.box = .ok r) :
    Spec (cell q (.proto (p.withParser t.proto)) * nullable ownsBox b t.box)
      (storePair q b (p.withParser t.proto) (a, rest, idx))
      (turned (parsing q b p) (parsed q b p)
        (if r.ret ≠ 0 then
          .leave ⟨0, { t.proto with error := r.ret }, r.box, r.mem, idx⟩
        else
          .again ⟨{ t.proto with
            error := r.ret
            keyLen := -1
            valLen := -1
            keyDataFetched := 0
            valDataFetched := 0
            state := .keyLenRead }, r.box, r.mem, rest, idx⟩)) := by
  unfold storeKeyValue at run
  unfold storePair
  have keyData : (p.withParser t.proto).keyData = t.proto.keyData := rfl
  rw [keyData]
  cases read : t.proto.keyData.cstring with
  | error e => simp [read] at run
  | ok key =>
    simp only [read, LibAmp.ampPutBytes, ← mem] at run
    refine Spec.step (putBuf_spec a run) (mul_comm _ _) fun s => ?_
    rw [mul_assoc]
    refine Spec.of_fact ?_
    rintro ⟨ret, mem'⟩
    refine Spec.step (Spec.write q (Block.proto _) _) (mul_comm _ _) fun _ => ?_
    by_cases failed : r.ret ≠ 0
    · rw [if_pos failed]
      refine Spec.pos (ret ▸ failed) (Spec.done _ (le_fact_mul ⟨rfl, rfl, mem'⟩ (le_of_eq ?_)))
      rw [ret]
      rfl
    · rw [if_neg failed]
      refine Spec.neg (ret ▸ failed) ?_
      refine Spec.step (Spec.write q (Block.proto _) _) rfl fun _ => ?_
      refine Spec.done _ (le_fact_mul ⟨mem', rfl⟩ (le_of_eq ?_))
      rw [ret]
      rfl

theorem readValData_spec {next : Turn ParseLoop ParseResult} (mem : a.serves = t.mem)
    (run : LibAmp.readValData t = .ok next) :
    Spec (cell q (.proto (p.withParser t.proto)) * nullable ownsBox b t.box)
      (readValData q b (p.withParser t.proto) (a, t.rest, t.idx))
      (turned (parsing q b p) (parsed q b p) next) := by
  unfold LibAmp.readValData at run
  unfold readValData
  have fields : (p.withParser t.proto).valLen - (p.withParser t.proto).valDataFetched =
      t.proto.valLen - t.proto.valDataFetched := rfl
  dsimp only at run ⊢
  rw [fields]
  by_cases short : (t.rest.length : Int) < t.proto.valLen - t.proto.valDataFetched
  · simp only [short, ↓reduceIte] at run
    refine Spec.pos short ?_
    cases copied : memcpy t.proto.valData t.proto.valDataFetched t.rest t.rest.length with
    | error e => simp [copied] at run
    | ok valData =>
      have same : memcpy (p.withParser t.proto).valData (p.withParser t.proto).valDataFetched
          t.rest t.rest.length = .ok valData := copied
      simp only [copied, Except.ok.injEq] at run
      obtain rfl := run
      rw [same]
      refine Spec.step (Spec.write q (Block.proto _) _) rfl fun _ => ?_
      exact Spec.done _ (le_fact_mul ⟨mem, rfl⟩ le_rfl)
  · simp only [short, ↓reduceIte] at run
    refine Spec.neg short ?_
    cases copied : memcpy t.proto.valData t.proto.valDataFetched t.rest
        (t.proto.valLen - t.proto.valDataFetched) with
    | error e => simp [copied] at run
    | ok valData =>
      have same : memcpy (p.withParser t.proto).valData (p.withParser t.proto).valDataFetched
          t.rest (t.proto.valLen - t.proto.valDataFetched) = .ok valData := copied
      simp only [copied] at run
      rw [same]
      refine Spec.step (Spec.write q (Block.proto _) _) rfl fun _ => ?_
      split at run
      · cases run
      next r stored =>
        refine (storePair_spec (t := { t.advance (t.proto.valLen - t.proto.valDataFetched)
          { t.proto with
            valData := valData
            valDataFetched := t.proto.valDataFetched +
              (t.proto.valLen - t.proto.valDataFetched) } with box := t.box })
          (p := p) (q := q) mem stored).post fun s => le_of_eq ?_
        split at run
        next failed =>
          rw [if_pos failed, ← Except.ok.inj run]
          rfl
        next fine =>
          rw [if_neg fine, ← Except.ok.inj run]
          rfl

/-- One turn of the loop. -/
theorem parseTurn_spec {bytesConsumed : Int} {s : ParseState}
    {next : Turn ParseLoop ParseResult} (run : LibAmp.parseTurn bytesConsumed t = .ok next) :
    Spec (parsing q b p t s) (parseTurn q b bytesConsumed s)
      (turned (parsing q b p) (parsed q b p) next) := by
  obtain ⟨a, rest, idx⟩ := s
  refine Spec.of_fact ?_
  rintro ⟨mem, ⟨⟩⟩
  unfold LibAmp.parseTurn at run
  unfold parseTurn
  dsimp only at mem run ⊢
  rcases bytes : t.rest with _ | ⟨c, more⟩ <;> rw [bytes] at run
  · obtain rfl := Except.ok.inj run
    exact Spec.done _ (le_fact_mul ⟨rfl, rfl, mem⟩ le_rfl)
  · dsimp only at run ⊢
    refine Spec.look (Returns.readAs viewProto (dvd_mul_right _ _) rfl) ?_
    have seen : fieldsOf (p.withParser t.proto) (a, t.rest, t.idx) = blind t := by
      rw [fieldsOf, mem]
      rfl
    have state : (p.withParser t.proto).state = t.proto.state := rfl
    rw [state, ← bytes, seen]
    cases at' : t.proto.state with
    | keyLenRead =>
      simp only [at', Except.ok.injEq] at run
      obtain rfl := run
      obtain ⟨same, keepsBox⟩ := readKeyLen_blind t c
      rw [same]
      exact storeFields_spec mem keepsBox
    | keyDataRead =>
      simp only [at'] at run
      obtain ⟨same, keepsBox⟩ := readKeyData_blind run
      rw [same]
      exact storeFields_spec mem keepsBox
    | valLenRead =>
      simp only [at', Except.ok.injEq] at run
      obtain rfl := run
      obtain ⟨same, keepsBox⟩ := readValLen_blind t c
      rw [same]
      exact storeFields_spec mem keepsBox
    | valDataRead =>
      simp only [at'] at run
      exact readValData_spec mem run
    | undeclared n =>
      simp only [at', Except.ok.injEq] at run
      obtain rfl := run
      refine Spec.step (Spec.write q (Block.proto _) _) rfl fun _ => ?_
      exact Spec.done _ (le_fact_mul ⟨rfl, rfl, mem⟩ le_rfl)

end Turns

/-- Parsing on the heap is parsing, however the buffer ends. -/
theorem ampParseBox_spec (q b : Ptr) (p : ProtoStruct) (a : BlockAllocator) {box : Option AmpBox}
    {proto : Parser} {bytesConsumed : Int} {buf : List UInt8} {r : ParseResult}
    (run : LibAmp.ampParseBox a.serves proto box bytesConsumed buf = .ok r) :
    Spec (cell q (.proto (p.withParser proto)) * nullable ownsBox b box)
      (ampParseBox a q b bytesConsumed buf) (parsed q b p r) := by
  have loop := Spec.simulate (I := parsing q b p) (Q := parsed q b p)
    (fun _ _ _ run => parseTurn_spec run) run (s := (a, buf, 0))
  rwa [parsing, fact_of ⟨rfl, rfl⟩, one_mul] at loop

end LibAmp.OnHeap
