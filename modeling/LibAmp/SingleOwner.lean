import LibAmp.AllocFailure
import LibAmp.DispatchSpec
import LibAmp.Ownership
import LibAmp.Responding

/-!
# Every inbound box has one owner

Dispatching a box hands it over once, or frees it once, or leaves it in the proto with an error.
So at every point in the life of a proto each box it has made has exactly one owner, whatever the
allocator refuses and whatever the write handler returns.

## Main results

* `ownedProcessFullPacket_cases` — what becomes of the box that is dispatched.
* `inbound_box_single_owner` — what that means for one box and for the whole life of a proto.
-/

namespace LibAmp

open WhileLoop (Turn Outcome TurnOutcome)

variable {U σ : Type} {write : WriteHandler U} {proto : Dispatcher} {mem mem' : Mem} {box : AmpBox}
  {own : U} {id : Nat} {boxes : Boxes}

/-! ## Dispatching -/

/-- The box that user code is given with an invocation. -/
def Invocation.args : Invocation → Option AmpBox
  | .responder _ request => some request.args
  | .callback _ result => result.args

theorem ampGetBytes_error {key : CString} {err : AmpError} (h : ampGetBytes box key = .error err) :
    err ≠ 0 := by
  have code : ampKeyNotFound ≠ 0 := by decide
  unfold ampGetBytes ampGetBuf at h
  grind

/-- Reading an integer of any type that fails does so with an error code. -/
theorem narrow_error {α : Type} {f : Int → α} {lo hi : Int} {key : CString} {err : AmpError}
    (h : (narrow lo hi box key).map f = .error err) : err ≠ 0 := by
  have range : ampOutOfRange ≠ 0 := by decide
  unfold narrow at h
  split at h
  · next err' read =>
    cases h
    exact ampGetBytes_error read
  split at h
  · next err' decoded =>
    cases h
    exact buftoll_error decoded
  · split at h
    · cases h
    · cases h
      exact range

theorem optionalChunk_error {key : CString} {err : AmpError}
    (h : optionalChunk mem box key = (.error err, mem')) : err ≠ 0 := by
  unfold optionalChunk at h
  split at h
  · split at h
    · next err' read =>
      cases h
      exact ampGetBytes_error read
    · grind [enomem_ne_zero]
  · cases h

theorem ampNewRequestFromBox_error {err : AmpError}
    (h : ampNewRequestFromBox mem box = (.error err, mem')) : err ≠ 0 := by
  unfold ampNewRequestFromBox at h
  split at h
  · grind [enomem_ne_zero]
  split at h
  · next err' read =>
    cases h
    exact ampGetBytes_error read
  split at h
  · grind [enomem_ne_zero]
  split at h
  · next err' read =>
    cases h
    exact optionalChunk_error read
  · cases h

theorem ampNewRequestFromBox_args {request : AmpRequest}
    (h : ampNewRequestFromBox mem box = (.ok request, mem')) : request.args = box := by
  unfold ampNewRequestFromBox at h
  grind

theorem ampNewResponseFromBox_error {err : AmpError}
    (h : ampNewResponseFromBox mem box = (.error err, mem')) : err ≠ 0 := by
  unfold ampNewResponseFromBox at h
  split at h
  · grind [enomem_ne_zero]
  split at h
  · next err' read =>
    cases h
    exact narrow_error read
  · cases h

theorem ampNewResponseFromBox_args {response : AmpResponse}
    (h : ampNewResponseFromBox mem box = (.ok response, mem')) : response.args = box := by
  unfold ampNewResponseFromBox at h
  grind

theorem ampNewErrorFromBox_error {err : AmpError}
    (h : ampNewErrorFromBox mem box = (.error err, mem')) : err ≠ 0 := by
  unfold ampNewErrorFromBox at h
  split at h
  · grind [enomem_ne_zero]
  split at h
  · next err' read =>
    cases h
    exact narrow_error read
  split at h
  · next err' read =>
    cases h
    exact optionalChunk_error read
  split at h
  · next err' read =>
    cases h
    exact optionalChunk_error read
  · cases h

/-- A result takes its box with it, into the user's hands or into the heap. -/
theorem ownedCompleteCall_cases {askKey : Int32} {result : AmpResult} {args : Option Nat} :
    let p := ownedCompleteCall proto mem own askKey result args boxes
    (p.boxes = ampFreeBox boxes args ∧ ∀ invocation, p.flow ≠ .invoke invocation) ∨
      ∃ cb, p.flow = .invoke (.callback cb result) ∧ p.boxes = handOver boxes args := by
  unfold ownedCompleteCall
  rcases ampPopCallback proto.outstandingRequests askKey with ⟨_ | cb, outstanding⟩
  · exact .inl ⟨rfl, fun _ => nofun⟩
  rcases malloc .result mem with ⟨_ | _, mem⟩
  · exact .inl ⟨rfl, fun _ => nofun⟩
  · exact .inr ⟨cb, rfl, rfl⟩

/-- The box stays in the proto with an error, or it is freed and no user code sees it, or user
code is given it. -/
theorem ownedProcessFullPacket_cases {p : Owned U}
    (h : ownedProcessFullPacket write proto mem box own id boxes = .ok p) :
    (∃ code, p.flow = .ret code ∧ code ≠ 0 ∧ p.boxes = boxes) ∨
      (p.boxes = boxes.settle id .freed ∧
        ∀ invocation, p.flow = .invoke invocation → invocation.args = none) ∨
      ∃ invocation, p.flow = .invoke invocation ∧ invocation.args = some box ∧
        p.boxes = boxes.settle id .handed := by
  unfold ownedProcessFullPacket at h
  split at h
  · cases h
    exact .inl ⟨_, rfl, by decide, rfl⟩
  split at h
  · split at h
    · next err _ made =>
      cases h
      exact .inl ⟨_, rfl, ampNewRequestFromBox_error made, rfl⟩
    · next request _ made =>
      dsimp only at h
      split at h
      · cases h
        exact .inr (.inr ⟨_, rfl, congrArg some (ampNewRequestFromBox_args made), rfl⟩)
      split at h
      · cases h
        exact .inr (.inl ⟨rfl, nofun⟩)
      split at h
      · cases h
      · cases h
        exact .inr (.inl ⟨rfl, nofun⟩)
  split at h
  · split at h
    · next err _ made =>
      cases h
      exact .inl ⟨_, rfl, ampNewResponseFromBox_error made, rfl⟩
    · next response _ made =>
      obtain rfl := Except.ok.inj h
      obtain ⟨freed, returned⟩ | ⟨cb, invoked, handed⟩ := ownedCompleteCall_cases
      · exact .inr (.inl ⟨freed, fun _ invoked => absurd invoked (returned _)⟩)
      · exact .inr (.inr ⟨_, invoked, congrArg some (ampNewResponseFromBox_args made), handed⟩)
  split at h
  · split at h
    · next err _ made =>
      cases h
      exact .inl ⟨_, rfl, ampNewErrorFromBox_error made, rfl⟩
    · next error _ made =>
      obtain rfl := Except.ok.inj h
      obtain ⟨freed, returned⟩ | ⟨cb, invoked, freed⟩ := ownedCompleteCall_cases
      · exact .inr (.inl ⟨freed, fun _ invoked => absurd invoked (returned _)⟩)
      · refine .inr (.inl ⟨freed, ?_⟩)
        intro invocation invoked'
        rw [invoked] at invoked'
        cases invoked'
        rfl
  · cases h
    exact .inl ⟨_, rfl, by decide, rfl⟩

/-! ## The parser keeps the box -/

theorem ampPutBuf_isSome {mem : Mem} {box : Option AmpBox} {key : CString} {buf : List UInt8}
    {bufSize : Int} {r : PutResult} (h : ampPutBuf mem box key buf bufSize = .ok r) :
    r.box.isSome = box.isSome := by
  unfold ampPutBuf at h
  grind

theorem ampParseBox_isSome {mem : Mem} {proto : Parser} {box : Option AmpBox} {n : Int}
    {buf : List UInt8} {r : ParseResult} (h : ampParseBox mem proto box n buf = .ok r) :
    r.box.isSome = box.isSome := by
  refine ampParseBox_inv (fun b _ => b.isSome = box.isSome) ?_ rfl h
  intro mem proto b r same stored
  unfold storeKeyValue at stored
  split at stored
  · cases stored
  · exact (ampPutBuf_isSome stored).trans same

/-! ## One turn -/

variable {user : UserCode U} {state : (Dispatcher × U) × Boxes}

/-- User code does not touch the record of the boxes. -/
theorem ownedDispatch_processed {d : Dispatched ((Dispatcher × U) × Boxes)}
    (held : state.2.held = some id)
    (h : ownedDispatch write user mem (some box) state = .ok d) :
    ∃ p, ownedProcessFullPacket write state.1.1 mem box state.1.2 id state.2 = .ok p ∧
      d.own.2 = p.boxes := by
  simp only [ownedDispatch, held] at h
  split at h
  · cases h
  next p processed =>
  refine ⟨p, processed, ?_⟩
  split at h
  · obtain rfl := Except.ok.inj h
    rfl
  · split at h
    · cases h
    · obtain rfl := Except.ok.inj h
      rfl

theorem ownedDispatch_cases {d : Dispatched ((Dispatcher × U) × Boxes)}
    (held : state.2.held = some id)
    (h : ownedDispatch write user mem (some box) state = .ok d) :
    (d.ret ≠ 0 ∧ d.box = some box ∧ d.own.2 = state.2) ∨
      (d.box = none ∧ d.own.2 = state.2.settle id .freed) ∨
      (d.ret = 0 ∧ d.box = none ∧ d.own.2 = state.2.settle id .handed) := by
  simp only [ownedDispatch, held] at h
  split at h
  · cases h
  next p processed =>
  obtain ⟨code, returned, failed, kept⟩ | ⟨freed, -⟩ | ⟨invocation, invoked, -, handed⟩ :=
    ownedProcessFullPacket_cases processed
  · rw [returned] at h
    obtain rfl := Except.ok.inj h
    exact .inl ⟨failed, by simp only [kept, held, Option.map_some], kept⟩
  · have empty : (p.boxes.held.map fun _ => box) = none := by rw [freed]; rfl
    split at h
    · obtain rfl := Except.ok.inj h
      exact .inr (.inl ⟨empty, freed⟩)
    · split at h
      · cases h
      · obtain rfl := Except.ok.inj h
        exact .inr (.inl ⟨empty, freed⟩)
  · rw [invoked] at h
    dsimp only at h
    split at h
    · cases h
    · obtain rfl := Except.ok.inj h
      exact .inr (.inr ⟨rfl, by rw [handed]; rfl, handed⟩)

/-- The proto has a box exactly if its slot is taken, and every box has one owner. -/
structure Consumer.Owns (now : Consumer (σ × Boxes)) : Prop where
  tied : now.own.2.held.isSome = now.proto.box.isSome
  sound : now.own.2.Sound

/-- Dispatching a box and starting on a new one. -/
theorem ownedDispatchTurn_owns {s : ConsumeLoop ((Dispatcher × U) × Boxes)} (owns : s.now.Owns) :
    Outcome (fun _ => True) (TurnOutcome (fun t => t.now.Owns) (fun a => a.2.Owns))
      (ownedDispatchTurn (ownedDispatch write user) s) := by
  unfold ownedDispatchTurn
  split
  · trivial
  next d dispatched =>
  rcases hbox : s.now.proto.box with _ | box
  · rw [hbox] at dispatched
    cases dispatched
  obtain ⟨id, held⟩ := Option.isSome_iff_exists.1 (owns.tied.trans (by rw [hbox]; rfl))
  rw [hbox] at dispatched
  obtain ⟨failed, kept, same⟩ | ⟨empty, freed⟩ | ⟨returned, empty, handed⟩ :=
    ownedDispatch_cases held dispatched
  · dsimp only
    rw [if_pos failed]
    exact ⟨by rw [same, kept, held]; rfl, same ▸ owns.sound⟩
  · have sound : d.own.2.Sound := freed ▸ owns.sound.settle held .freed
    have released : d.own.2.held = none := by rw [freed]; rfl
    dsimp only
    split
    · exact ⟨by rw [released, empty]; rfl, sound⟩
    · exact ⟨Custody.fill_held .., sound.fill released _⟩
  · have sound : d.own.2.Sound := handed ▸ owns.sound.settle held .handed
    have released : d.own.2.held = none := by rw [handed]; rfl
    dsimp only
    split
    · exact ⟨by rw [released, empty]; rfl, sound⟩
    · exact ⟨Custody.fill_held .., sound.fill released _⟩

variable (write user) in
theorem ownedConsumeTurn_owns {s : ConsumeLoop ((Dispatcher × U) × Boxes)} (owns : s.now.Owns) :
    Outcome (fun _ => True) (TurnOutcome (fun t => t.now.Owns) (fun a => a.2.Owns))
      (ownedConsumeTurn (ownedDispatch write user) s) := by
  unfold ownedConsumeTurn
  split
  · exact owns
  split
  · trivial
  next r parsed =>
  have owns' : Consumer.Owns ⟨{ r.proto with box := r.box }, r.mem, s.now.own⟩ :=
    ⟨owns.tied.trans (ampParseBox_isSome parsed).symm, owns.sound⟩
  dsimp only
  split
  · exact ownedDispatchTurn_owns owns'
  split
  · exact owns'
  · exact owns'

/-- Whatever is fed to the proto, every box has one owner afterwards. -/
theorem ownedConsumeBytes_owns {now after : Consumer ((Dispatcher × U) × Boxes)}
    (owns : now.Owns) {buf : List UInt8} {ret : Int}
    (h : ownedConsumeBytes (ownedDispatch write user) now buf = .ok (ret, after)) :
    after.Owns := by
  unfold ownedConsumeBytes at h
  split at h
  · cases h
    exact owns
  exact WhileLoop.run_left (fun s : ConsumeLoop _ => s.now.Owns)
    (fun s hs => ownedConsumeTurn_owns write user hs) owns h

/-! ## Without the record -/

def Consumer.erase (now : Consumer (σ × Boxes)) : Consumer σ := ⟨now.proto, now.mem, now.own.1⟩

def ConsumeLoop.erase (s : ConsumeLoop (σ × Boxes)) : ConsumeLoop σ :=
  ⟨s.now.erase, s.rest, s.bytesConsumed⟩

theorem ownedDispatchTurn_erase {s : ConsumeLoop ((Dispatcher × U) × Boxes)} (owns : s.now.Owns) :
    (ownedDispatchTurn (ownedDispatch write user) s).map
        (Turn.map ConsumeLoop.erase fun a => (a.1, a.2.erase)) =
      dispatchTurn (libraryDispatch write user) s.erase := by
  have same := ownedDispatch_erase write user s.now.mem s.now.proto.box s.now.own owns.tied
  simp only [ownedDispatchTurn, dispatchTurn, ConsumeLoop.erase, Consumer.erase, ← same]
  rcases ownedDispatch write user s.now.mem s.now.proto.box s.now.own with e | d
  · rfl
  by_cases failed : d.ret ≠ 0
  · simp only [Except.map, Dispatched.erase, if_pos failed]
    rfl
  · simp only [Except.map, Dispatched.erase, if_neg failed]
    rfl

theorem ownedConsumeTurn_erase {s : ConsumeLoop ((Dispatcher × U) × Boxes)} (owns : s.now.Owns) :
    (ownedConsumeTurn (ownedDispatch write user) s).map
        (Turn.map ConsumeLoop.erase fun a => (a.1, a.2.erase)) =
      consumeTurn (libraryDispatch write user) s.erase := by
  unfold ownedConsumeTurn consumeTurn
  rcases hrest : s.rest with _ | ⟨c, rest⟩
  · simp only [ConsumeLoop.erase, hrest]
    rfl
  simp only [ConsumeLoop.erase, Consumer.erase, hrest]
  rcases parsed : ampParseBox s.now.mem s.now.proto s.now.proto.box s.bytesConsumed (c :: rest)
    with e | r
  · rfl
  dsimp only
  split
  · exact ownedDispatchTurn_erase
      ⟨owns.tied.trans (ampParseBox_isSome parsed).symm, owns.sound⟩
  split
  · rfl
  · rfl

/-- Without the record of the boxes this is `amp_consume_bytes`. -/
theorem ownedConsumeBytes_erase {now : Consumer ((Dispatcher × U) × Boxes)} (owns : now.Owns)
    (buf : List UInt8) :
    (ownedConsumeBytes (ownedDispatch write user) now buf).map (fun a => (a.1, a.2.erase)) =
      ampConsumeBytes (libraryDispatch write user) now.erase buf := by
  unfold ownedConsumeBytes ampConsumeBytes
  split
  · next failed =>
    rw [if_pos (show now.erase.proto.error ≠ 0 from failed)]
    rfl
  · next healthy =>
    rw [if_neg (show ¬ now.erase.proto.error ≠ 0 from healthy)]
    refine WhileLoop.run_map ConsumeLoop.erase _ (fun s => s.now.Owns)
      (fun s hs => ownedConsumeTurn_erase hs) ?_ _ _ owns
    intro s t hs again
    have step := ownedConsumeTurn_owns write user hs
    rw [again] at step
    exact step

/-! ## The life of a proto -/

/-- `amp_reset_proto` frees the box, if there is one, and makes another. -/
def ownedResetProto (now : Consumer (σ × Boxes)) : Consumer (σ × Boxes) :=
  let (parser, mem) := now.proto.reset now.mem
  ⟨parser, mem, (now.own.1, (ampFreeBox now.own.2 now.own.2.held).fill parser.box.isSome)⟩

/-- `amp_free_proto` frees the box, and there is no proto after it. -/
def ownedFreeProto (boxes : Boxes) : Boxes := (ampFreeBox boxes boxes.held).release

/-- What happens to a proto: it is fed or reset, or anything else that leaves its box alone. -/
inductive ProtoEvent (U : Type) where
  | consume (user : UserCode U) (buf : List UInt8)
  | reset
  | act (f : Dispatcher → Mem → U → Except Fault (Dispatcher × Mem × U))

def ProtoEvent.step (write : WriteHandler U) (now : Consumer ((Dispatcher × U) × Boxes)) :
    ProtoEvent U → Except Fault (Consumer ((Dispatcher × U) × Boxes))
  | .consume user buf => (ownedConsumeBytes (ownedDispatch write user) now buf).map (·.2)
  | .reset => .ok (ownedResetProto now)
  | .act f =>
    match f now.own.1.1 now.mem now.own.1.2 with
    | .error e => .error e
    | .ok (proto, mem, own) => .ok ⟨now.proto, mem, ((proto, own), now.own.2)⟩

def ProtoEvent.run (write : WriteHandler U) (now : Consumer ((Dispatcher × U) × Boxes)) :
    List (ProtoEvent U) → Except Fault (Consumer ((Dispatcher × U) × Boxes))
  | [] => .ok now
  | event :: events =>
    match event.step write now with
    | .error e => .error e
    | .ok now => run write now events

/-- The box in the proto may be overwritten once it is freed. -/
theorem freeBox_fill_sound (sound : boxes.Sound) (ok : Bool) :
    ((ampFreeBox boxes boxes.held).fill ok).Sound := by
  rcases held : boxes.held with _ | id
  · exact sound.fill held ok
  · rw [ampFreeBox, Custody.record_fill]
    exact (sound.settle held .freed).fill rfl ok

theorem ownedResetProto_owns {now : Consumer (σ × Boxes)} (owns : now.Owns) :
    (ownedResetProto now).Owns :=
  ⟨Custody.fill_held .., freeBox_fill_sound owns.sound _⟩

theorem ownedFreeProto_sound (sound : boxes.Sound) : (ownedFreeProto boxes).Sound :=
  freeBox_fill_sound sound false

theorem ProtoEvent.step_owns {now after : Consumer ((Dispatcher × U) × Boxes)} (owns : now.Owns)
    {event : ProtoEvent U} (h : event.step write now = .ok after) : after.Owns := by
  cases event with
  | consume user buf =>
    rcases consumed : ownedConsumeBytes (ownedDispatch write user) now buf with e | ⟨ret, after'⟩
    · rw [step, consumed] at h
      cases h
    · rw [step, consumed] at h
      obtain rfl := Except.ok.inj h
      exact ownedConsumeBytes_owns owns consumed
  | reset =>
    obtain rfl := Except.ok.inj h
    exact ownedResetProto_owns owns
  | act f =>
    simp only [step] at h
    split at h
    · cases h
    · obtain rfl := Except.ok.inj h
      exact ⟨owns.tied, owns.sound⟩

theorem ProtoEvent.run_owns {now after : Consumer ((Dispatcher × U) × Boxes)} (owns : now.Owns)
    {events : List (ProtoEvent U)} (h : ProtoEvent.run write now events = .ok after) :
    after.Owns := by
  induction events generalizing now with
  | nil =>
    obtain rfl := Except.ok.inj h
    exact owns
  | cons event events ih =>
    simp only [ProtoEvent.run] at h
    split at h
    · cases h
    · next now' stepped => exact ih (ProtoEvent.step_owns owns stepped) h

/-! ## One owner -/

/-- What becomes of box number `id` when it is dispatched: it has left the proto, in the user's
hands or freed, or the dispatcher has failed and the proto still has it. -/
structure DispatchedOnce (box : AmpBox) (id : Nat) (d : Dispatched (σ × Boxes)) : Prop where
  accepted : d.ret = 0 → d.box = none ∧
    (d.own.2.owner id = some (.gone .handed) ∨ d.own.2.owner id = some (.gone .freed))
  refused : d.ret ≠ 0 → (d.box = some box ∧ d.own.2.owner id = some .slot) ∨
    (d.box = none ∧ d.own.2.owner id = some (.gone .freed))

theorem ownedDispatch_once (slot : state.2.owner id = some .slot)
    {d : Dispatched ((Dispatcher × U) × Boxes)}
    (h : ownedDispatch write user mem (some box) state = .ok d) : DispatchedOnce box id d := by
  obtain ⟨failed, kept, same⟩ | ⟨empty, freed⟩ | ⟨returned, empty, handed⟩ :=
    ownedDispatch_cases (Custody.owner_eq_slot.1 slot).1 h
  · exact ⟨fun returned => absurd returned failed, fun _ => .inl ⟨kept, same ▸ slot⟩⟩
  · have gone : d.own.2.owner id = some (.gone .freed) :=
      freed ▸ Custody.settle_owner slot .freed
    exact ⟨fun _ => ⟨empty, .inr gone⟩, fun _ => .inr ⟨empty, gone⟩⟩
  · have gone : d.own.2.owner id = some (.gone .handed) :=
      handed ▸ Custody.settle_owner slot .handed
    exact ⟨fun _ => ⟨empty, .inl gone⟩, fun failed => absurd returned failed⟩

/-- Box number `id` is handed over exactly if user code is run with it. -/
def Owned.HandsOver (box : AmpBox) (id : Nat) (p : Owned U) : Prop :=
  p.boxes.owner id = some (.gone .handed) ↔
    ∃ invocation, p.flow = .invoke invocation ∧ invocation.args = some box

theorem ownedProcessFullPacket_handsOver {p : Owned U} (slot : boxes.owner id = some .slot)
    (h : ownedProcessFullPacket write proto mem box own id boxes = .ok p) :
    p.HandsOver box id := by
  unfold Owned.HandsOver
  obtain ⟨code, returned, -, kept⟩ | ⟨freed, unseen⟩ | ⟨invocation, invoked, given, handed⟩ :=
    ownedProcessFullPacket_cases h
  · rw [kept, slot, returned]
    exact iff_of_false nofun nofun
  · rw [freed, Custody.settle_owner slot]
    refine iff_of_false nofun ?_
    rintro ⟨invocation, invoked, given⟩
    rw [unseen invocation invoked] at given
    cases given
  · rw [handed, Custody.settle_owner slot]
    exact iff_of_true rfl ⟨invocation, invoked, given⟩

/-- Dispatching settles a box once, and user code is run with it if it is handed over; and at every
point in the life of a proto each box it has made has one owner, which is not the proto once that is
gone. -/
theorem inbound_box_single_owner (write : WriteHandler U) :
    (∀ user mem box state id d, state.2.owner id = some .slot →
      ownedDispatch write user mem (some box) state = .ok d →
      DispatchedOnce box id d ∧
        ∃ p, ownedProcessFullPacket write state.1.1 mem box state.1.2 id state.2 = .ok p ∧
          p.HandsOver box id ∧ d.own.2 = p.boxes) ∧
    (∀ mem mem' keyData valData new own events after,
      ampNewProto mem keyData valData = .ok (some new, mem') →
      ProtoEvent.run write
          ⟨new.toParser, mem', ((new.toDispatcher, own), Custody.start.fill true)⟩ events =
        .ok after →
      after.own.2.Sound ∧ (ownedFreeProto after.own.2).Sound ∧
        ∀ id < after.own.2.made, (ownedFreeProto after.own.2).owner id ≠ some .slot) := by
  constructor
  · intro user mem box state id d slot dispatched
    obtain ⟨p, processed, same⟩ :=
      ownedDispatch_processed (Custody.owner_eq_slot.1 slot).1 dispatched
    exact ⟨ownedDispatch_once slot dispatched, p, processed,
      ownedProcessFullPacket_handsOver slot processed, same⟩
  · intro mem mem' keyData valData new own events after fresh run
    have owns : Consumer.Owns (⟨new.toParser, mem', ((new.toDispatcher, own),
        Custody.start.fill true)⟩ : Consumer ((Dispatcher × U) × Boxes)) :=
      ⟨by rw [(ampNewProto_ok fresh).1]; rfl, Custody.Sound.start.fill rfl true⟩
    have sound := (ProtoEvent.run_owns owns run).sound
    refine ⟨sound, ownedFreeProto_sound sound, ?_⟩
    intro id _ slot
    cases (Custody.owner_eq_slot.1 slot).1

/-! ## A box that is refused, and one that is freed -/

def idleUser : UserCode (List (List UInt8)) := fun _ proto mem own => .ok (proto, mem, own)

def ownedNewProto (new : AmpProto) : Consumer ((Dispatcher × List (List UInt8)) × Boxes) :=
  ⟨new.toParser, plenty, ((new.toDispatcher, []), Custody.start.fill true)⟩

theorem inbound_box_single_owner_reset :
    ∃ new, ampNewProto plenty (.zeros _) (.zeros _) = .ok (some new, plenty) ∧
      (∃ after, ProtoEvent.run acceptWrite (ownedNewProto new)
          [.consume idleUser [0, 0], .reset] = .ok after ∧
        after.own.2.made = 2 ∧ after.own.2.Sound) ∧
      ∃ d, ownedDispatch acceptWrite idleUser plenty (some tellBox) (ownedNewProto new).own =
          .ok d ∧
        d.ret = 0 ∧ d.own.2.owner 0 = some (.gone .freed) ∧ DispatchedOnce tellBox 0 d := by
  obtain ⟨once, life⟩ := inbound_box_single_owner acceptWrite
  let events := [ProtoEvent.consume idleUser [0, 0], .reset]
  have sound := life plenty plenty (.zeros _) (.zeros _) _ [] events _ rfl rfl
  have dispatched (state) (d) (slot : Custody.owner state.2 0 = some .slot)
      (h : ownedDispatch acceptWrite idleUser plenty (some tellBox) state = .ok d)
      (returned : d.ret = 0) (freed : d.own.2.owner 0 = some (.gone .freed)) :
      ∃ d, ownedDispatch acceptWrite idleUser plenty (some tellBox) state = .ok d ∧
        d.ret = 0 ∧ d.own.2.owner 0 = some (.gone .freed) ∧ DispatchedOnce tellBox 0 d :=
    ⟨d, h, returned, freed, (once idleUser plenty tellBox state 0 d slot h).1⟩
  exact ⟨_, rfl, ⟨_, rfl, rfl, sound.1⟩, dispatched _ _ rfl rfl rfl rfl⟩

end LibAmp
