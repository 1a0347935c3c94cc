import LibAmp.ConsumeSpec

/-!
# Chunking and resetting

Two protos that represent the same decoder cannot be told apart by feeding them. So it does not
matter how a stream is cut into chunks (`chunking_independent`), nor whether a proto is new or
was reset after an arbitrary past (`reset_indistinguishable`).
-/

namespace LibAmp

variable {σ : Type}

/-! ## What is visible of a parser -/

/-- The parser fields without the bytes of the two arrays that were not fetched yet. -/
structure ParserView where
  state : ProtocolState
  keyLen : Int
  valLen : Int
  keyDataFetched : Int
  valDataFetched : Int
  keyBytes : List UInt8
  valBytes : List UInt8
  box : Option AmpBox

def Parser.view (p : Parser) : ParserView where
  state := p.state
  keyLen := p.keyLen
  valLen := p.valLen
  keyDataFetched := p.keyDataFetched
  valDataFetched := p.valDataFetched
  keyBytes := p.keyData.bytes.take p.keyDataFetched.toNat
  valBytes := p.valData.bytes.take p.valDataFetched.toNat
  box := p.box

/-- What is visible in each phase. -/
def Phase.view (box : Option AmpBox) : Phase → ParserView
  | .keyLenHigh => ⟨.keyLenRead, -1, -1, 0, 0, [], [], box⟩
  | .keyLenLow => ⟨.keyLenRead, 0, -1, 0, 0, [], [], box⟩
  | .keyData len got => ⟨.keyDataRead, len, -1, got.length, 0, got, [], box⟩
  | .valLenHigh key => ⟨.valLenRead, key.length, -1, key.length, 0, key, [], box⟩
  | .valLenLow key high =>
    ⟨.valLenRead, key.length, high.toNat * 256, key.length, 0, key, [], box⟩
  | .valData key len got =>
    ⟨.valDataRead, key.length, len, key.length, got.length, key, got, box⟩

theorem Parser.HoldsKey.take {p : Parser} {key : List UInt8} (h : p.HoldsKey key) :
    p.keyData.bytes.take key.length = key := by
  have shorter : p.keyData.bytes.take key.length =
      (p.keyData.bytes.take (key.length + 1)).take key.length := by
    rw [List.take_take, Nat.min_eq_left (Nat.le_succ _)]
  rw [shorter, h.bytes, List.take_left]

/-- The phase and the box are all that is visible. -/
theorem Parser.At.view_eq {p : Parser} {phase : Phase} (h : p.At phase) :
    p.view = phase.view p.box := by
  cases phase with
  | keyLenHigh | keyLenLow =>
    obtain ⟨hstate, hkeyLen, hkeyFetched, hvalLen, hvalFetched⟩ := h
    simp [Parser.view, Phase.view, hstate, hkeyLen, hkeyFetched, hvalLen, hvalFetched]
  | keyData len got =>
    obtain ⟨hstate, hkeyLen, -, hkeyFetched, -, hbytes, hvalLen, hvalFetched⟩ := h
    simp [Parser.view, Phase.view, hstate, hkeyLen, hkeyFetched, hvalLen, hvalFetched, hbytes]
  | valLenHigh key | valLenLow key high =>
    obtain ⟨hstate, hkey, hvalLen, hvalFetched⟩ := h
    simp [Parser.view, Phase.view, hstate, hkey.keyLen, hkey.fetched, hkey.take, hvalLen,
      hvalFetched]
  | valData key len got =>
    obtain ⟨hstate, hkey, hvalLen, -, hvalFetched, -, hbytes⟩ := h
    simp [Parser.view, Phase.view, hstate, hkey.keyLen, hkey.fetched, hkey.take, hvalLen,
      hvalFetched, hbytes]

/-! ## Indistinguishable results -/

/-- Two results of feeding, equal in all that is returned and visible. A result with an error
has nothing but the error, the allocator and the handler's state. -/
structure SameResult {α : Type} (r r' : α × Consumer σ) : Prop where
  ret : r.1 = r'.1
  error : r.2.proto.error = r'.2.proto.error
  mem : r.2.mem = r'.2.mem
  own : r.2.own = r'.2.own
  view : r.2.proto.error = 0 → r.2.proto.view = r'.2.proto.view

/-- Both runs fault in the same way or end with indistinguishable results. -/
def SameOutcome {α : Type} : Except Fault (α × Consumer σ) → Except Fault (α × Consumer σ) → Prop
  | .ok r, .ok r' => SameResult r r'
  | .error e, .error e' => e = e'
  | _, _ => False

/-- Results that show the same progress are indistinguishable. -/
theorem Shows.same {r r' : Int × Consumer σ} {p : Progress σ} (h : Shows r p) (h' : Shows r' p) :
    SameResult r r' := by
  cases p with
  | ongoing d =>
    obtain ⟨hret, rep⟩ := h
    obtain ⟨hret', rep'⟩ := h'
    refine ⟨hret.trans hret'.symm, rep.noError.trans rep'.noError.symm, rep.mem.trans rep'.mem.symm,
      rep.own.trans rep'.own.symm, ?_⟩
    intro noError
    rw [rep.atPhase.view_eq, rep'.atPhase.view_eq, rep.box, rep'.box]
  | failed ret mem own =>
    obtain ⟨hret, hne, herror, hmem, hown⟩ := h
    obtain ⟨hret', -, herror', hmem', hown'⟩ := h'
    exact ⟨hret.trans hret'.symm, herror.trans herror'.symm, hmem.trans hmem'.symm,
      hown.trans hown'.symm, fun h0 => absurd (herror.symm.trans h0) hne⟩

/-! ## Reachable parsers -/

/-- The parsers there can be: new ones, and what consuming bytes with any handler and resetting
make of them, whatever memory there is. -/
inductive Parser.Reachable : Parser → Prop where
  | fresh {mem mem' : Mem} {keyData : Buffer (256 + 1)} {valData : Buffer (256 * 256)}
      {proto : AmpProto} (h : ampNewProto mem keyData valData = .ok (some proto, mem')) :
      Reachable proto.toParser
  | consume {σ : Type} {dispatch : DispatchBox σ} {now now' : Consumer σ} {buf : List UInt8}
      {ret : Int} (before : Reachable now.proto)
      (h : ampConsumeBytes dispatch now buf = .ok (ret, now')) : Reachable now'.proto
  | reset {p : Parser} (mem : Mem) (before : Reachable p) : Reachable (p.reset mem).1

/-- Without an error a reachable parser is in some phase. -/
theorem Parser.Reachable.atPhase {p : Parser} (reach : p.Reachable) (noError : p.error = 0) :
    ∃ phase, p.At phase := by
  induction reach with
  | fresh h =>
    rw [(ampNewProto_ok h).1]
    exact ⟨_, at_fresh _ _ _⟩
  | @consume σ dispatch now now' buf ret before h ih =>
    by_cases clean : now.proto.error = 0
    · obtain ⟨phase, hphase⟩ := ih clean
      have rep : Represents now ⟨phase, now.proto.box, now.mem, now.own⟩ :=
        ⟨clean, hphase, rfl, rfl, rfl⟩
      have consumed := rep.consume dispatch buf
      rw [h] at consumed
      obtain ⟨d | ⟨ret', mem, own⟩, -, shows⟩ := consumed
      · exact ⟨_, shows.2.atPhase⟩
      · exact absurd (shows.2.2.1.symm.trans noError) shows.2.1
    · rw [ampConsumeBytes_latched clean] at h
      injection h with h
      injection h with _ h
      exact absurd (h ▸ noError) clean
  | reset mem before ih => exact ⟨_, at_reset mem _⟩

/-! ## Recording handlers -/

/-- Any handler, with the boxes it was called with. -/
def recording (dispatch : DispatchBox σ) : DispatchBox (List (Option AmpBox) × σ) :=
  fun mem box own =>
    match dispatch mem box own.2 with
    | .error e => .error e
    | .ok r => .ok ⟨r.ret, r.box, r.mem, own.1 ++ [box], r.own⟩

/-- A handler that counts the boxes and always returns 0. -/
def countBoxes : DispatchBox Nat := fun mem box n => .ok ⟨0, box, mem, n + 1⟩

/-! ## Chunking -/

/-- From a reachable state without an error, the chunks a stream is cut into make no difference
to what is dispatched, returned and left behind; and after an error nothing happens any more. -/
theorem chunking_independent (dispatch : DispatchBox σ)
    {now : Consumer (List (Option AmpBox) × σ)} (reach : now.proto.Reachable)
    (noError : now.proto.error = 0) {chunks chunks' : List (List UInt8)}
    (same : chunks.flatten = chunks'.flatten) :
    SameOutcome (feedUntilError (recording dispatch) now chunks)
        (feedUntilError (recording dispatch) now chunks') ∧
      ∀ ret after, feedUntilError (recording dispatch) now chunks = .ok (ret, after) →
        ret = after.proto.error ∧
          (ret ≠ 0 → ∀ buf, ampConsumeBytes (recording dispatch) after buf =
            .ok (ampProtoError, after)) := by
  obtain ⟨phase, hphase⟩ := reach.atPhase noError
  have rep : Represents now ⟨phase, now.proto.box, now.mem, now.own⟩ :=
    ⟨noError, hphase, rfl, rfl, rfl⟩
  have first := rep.feedUntilError (recording dispatch) chunks
  have second := rep.feedUntilError (recording dispatch) chunks'
  rw [← same] at second
  rcases hrun : Decoder.run (recording dispatch) _ chunks.flatten with e | p <;>
    rw [hrun] at first second
  · rw [first, second]
    exact ⟨rfl, fun ret after h => nomatch h⟩
  · obtain ⟨r, hfeed, shows⟩ := first
    obtain ⟨r', hfeed', shows'⟩ := second
    rw [hfeed, hfeed']
    refine ⟨shows.same shows', ?_⟩
    intro ret after h
    obtain rfl : r = (ret, after) := by injection h
    cases p with
    | ongoing d => exact ⟨shows.1.trans shows.2.noError.symm, fun h => absurd shows.1 h⟩
    | failed ret' mem own =>
      obtain ⟨hret, hne, herror, -, -⟩ := shows
      exact ⟨hret.trans herror.symm, fun _ => ampConsumeBytes_latched (herror ▸ hne)⟩

/-- Two boxes and a length that is none, cut in the middle of a length, of a key and of a value,
and at once. -/
theorem chunking_independent_cut :
    ∃ proto after, ampNewProto plenty (.zeros _) (.zeros _) = .ok (some proto, plenty) ∧
      feedUntilError (recording countBoxes) ⟨proto.toParser, plenty, [], 0⟩
        [[0], [2, 97], [98, 0, 3, 99], [100, 101, 0, 0, 0, 1], [102, 0, 0, 0, 0, 1, 2]] =
          .ok (ampBadKeySize, after) ∧ after.own.2 = 2 ∧
      SameOutcome
        (feedUntilError (recording countBoxes) ⟨proto.toParser, plenty, [], 0⟩
          [[0], [2, 97], [98, 0, 3, 99], [100, 101, 0, 0, 0, 1], [102, 0, 0, 0, 0, 1, 2]])
        (feedUntilError (recording countBoxes) ⟨proto.toParser, plenty, [], 0⟩
          [[0, 2, 97, 98, 0, 3, 99, 100, 101, 0, 0, 0, 1, 102, 0, 0, 0, 0, 1, 2]]) ∧
      ampConsumeBytes (recording countBoxes) after [0, 0] = .ok (ampProtoError, after) := by
  obtain ⟨proto, fresh⟩ := ampNewProto_plenty (.zeros _) (.zeros _)
  have evaluated : ∀ r ∈ (ampNewProto plenty (.zeros _) (.zeros _)).toOption, ∀ proto ∈ r.1,
      proto.error = 0 ∧ (feedUntilError (recording countBoxes) ⟨proto.toParser, plenty, [], 0⟩
        [[0], [2, 97], [98, 0, 3, 99], [100, 101, 0, 0, 0, 1],
          [102, 0, 0, 0, 0, 1, 2]]).toOption.map (fun r => (r.1, r.2.own.2)) =
        some (ampBadKeySize, 2) := by
    decide +kernel
  obtain ⟨noError, shown⟩ := evaluated (some proto, plenty) (by rw [fresh]; rfl) proto rfl
  obtain ⟨now, start⟩ : ∃ now : Consumer (List (Option AmpBox) × Nat), now =
      ⟨proto.toParser, plenty, [], 0⟩ := ⟨_, rfl⟩
  rw [← start] at shown
  obtain ⟨same, ends⟩ := chunking_independent countBoxes (start ▸ .fresh fresh)
    (show now.proto.error = 0 from start ▸ noError)
    (show [[0], [2, 97], [98, 0, 3, 99], [100, 101, 0, 0, 0, 1], [102, 0, 0, 0, 0, 1, 2]].flatten =
      [([0, 2, 97, 98, 0, 3, 99, 100, 101, 0, 0, 0, 1, 102, 0, 0, 0, 0, 1, 2] :
        List UInt8)].flatten from rfl)
  rcases fed : feedUntilError (recording countBoxes) now
    [[0], [2, 97], [98, 0, 3, 99], [100, 101, 0, 0, 0, 1], [102, 0, 0, 0, 0, 1, 2]] with
    e | ⟨ret, after⟩ <;> rw [fed] at shown
  · cases shown
  obtain ⟨rfl, two⟩ := Prod.mk.inj (Option.some.inj shown)
  exact ⟨proto, after, fresh, by rw [← start, fed], two, by rw [← start]; exact same,
    (ends _ _ fed).2 (by decide) [0, 0]⟩

/-! ## Resetting -/

/-- Two protos that represent the same decoder answer any chunks alike. -/
theorem Represents.feed_same {dispatch : DispatchBox σ} {a b : Consumer σ} {d : Decoder σ}
    (repA : Represents a d) (repB : Represents b d) (chunks : List (List UInt8)) :
    SameOutcome (feed dispatch a chunks) (feed dispatch b chunks) := by
  induction chunks generalizing a b d with
  | nil =>
    refine ⟨rfl, repA.noError.trans repB.noError.symm, repA.mem.trans repB.mem.symm,
      repA.own.trans repB.own.symm, ?_⟩
    intro noError
    rw [repA.atPhase.view_eq, repB.atPhase.view_eq, repA.box, repB.box]
  | cons chunk chunks ih =>
    have consumeA := repA.consume_eq dispatch chunk
    have consumeB := repB.consume_eq dispatch chunk
    rcases hrun : d.run dispatch chunk with e | d' | ⟨ret, mem, own⟩ <;>
      rw [hrun] at consumeA consumeB
    · simp only [feed, consumeA, consumeB]
      rfl
    · obtain ⟨⟨retA, a'⟩, hA, hretA, repA'⟩ := consumeA
      obtain ⟨⟨retB, b'⟩, hB, hretB, repB'⟩ := consumeB
      simp only at hretA hretB repA' repB'
      have rest := ih repA' repB'
      simp only [feed, hA, hB, hretA, hretB]
      rcases hfA : feed dispatch a' chunks with e | ⟨retsA, endA⟩ <;>
        rcases hfB : feed dispatch b' chunks with e' | ⟨retsB, endB⟩ <;>
        rw [hfA, hfB] at rest
      · exact rest
      · exact rest
      · exact rest
      · exact ⟨congrArg (0 :: ·) rest.ret, rest.error, rest.mem, rest.own, rest.view⟩
    · obtain ⟨⟨retA, a'⟩, hA, showsA⟩ := consumeA
      obtain ⟨⟨retB, b'⟩, hB, showsB⟩ := consumeB
      have hneA : a'.proto.error ≠ 0 := showsA.2.2.1 ▸ showsA.2.1
      have hneB : b'.proto.error ≠ 0 := showsB.2.2.1 ▸ showsB.2.1
      have same := Shows.same showsA showsB
      simp only [feed, hA, hB, feed_latched hneA, feed_latched hneB]
      exact ⟨congrArg (· :: _) same.ret, same.error, same.mem, same.own, same.view⟩

/-- After `amp_reset_proto` a proto in any state whatsoever goes on like a new one that was
given its tables, its write handler, its last ask key and the same `dispatch_box`; what the
handler does to its dispatcher and to the user's state is part of the comparison. -/
theorem reset_indistinguishable {U : Type} (proto : AmpProto) {mem : Mem}
    (room : mem 0 .box = true) {memNew memNew' : Mem} {keyData : Buffer (256 + 1)}
    {valData : Buffer (256 * 256)} {new : AmpProto}
    (hnew : ampNewProto memNew keyData valData = .ok (some new, memNew'))
    (dispatch : DispatchBox (Dispatcher × U)) (later : Mem) (own : U)
    (chunks : List (List UInt8)) :
    (ampResetProto mem proto).1.toDispatcher = proto.toDispatcher ∧
      SameOutcome
        (feed (recording dispatch) ⟨(ampResetProto mem proto).1.toParser, later,
          [], (ampResetProto mem proto).1.toDispatcher, own⟩ chunks)
        (feed (recording dispatch) ⟨new.toParser, later, [],
          { new with
            lastAskKey := proto.lastAskKey
            write := proto.write
            outstandingRequests := proto.outstandingRequests
            responders := proto.responders }.toDispatcher, own⟩ chunks) := by
  refine ⟨rfl, ?_⟩
  refine Represents.feed_same (d := ⟨.keyLenHigh, some (AmpBox.new hashString), later, [],
    proto.toDispatcher, own⟩) ⟨rfl, Parser.at_reset mem _, ?_, rfl, rfl⟩ ?_ chunks
  · simp [ampResetProto, Parser.reset, ampNewBox, malloc, room]
  · exact .fresh (ampNewProto_ok hnew).1 _ _

/-- A proto reset in the middle of a value, with an error latched. -/
theorem reset_indistinguishable_midValue :
    ∃ new, ampNewProto plenty (.zeros _) (.zeros _) = .ok (some new, plenty) ∧
      SameOutcome
        (feed (recording (σ := Dispatcher × Nat) fun mem box own => .ok ⟨0, box, mem, own⟩)
          ⟨(ampResetProto plenty { new with
            state := .valDataRead, valDataFetched := 3, error := ampBadValSize }).1.toParser,
            plenty, [], new.toDispatcher, 0⟩ [[0], [0, 1]])
        (feed (recording (σ := Dispatcher × Nat) fun mem box own => .ok ⟨0, box, mem, own⟩)
          ⟨new.toParser, plenty, [], new.toDispatcher, 0⟩ [[0], [0, 1]]) := by
  obtain ⟨new, hnew⟩ := ampNewProto_plenty (.zeros _) (.zeros _)
  exact ⟨new, hnew, (reset_indistinguishable (U := Nat) { new with
    state := .valDataRead, valDataFetched := 3, error := ampBadValSize } rfl hnew _ plenty 0
    [[0], [0, 1]]).2⟩

end LibAmp
