import LibAmp.Lib.Custody
import LibAmp.Dispatch

/-!
# Who owns an inbound box

The boxes a proto makes for what it parses, numbered in the order in which they are made, and what
becomes of each: handed to a responder or a callback, or freed. The functions here are those of
`LibAmp.Dispatch` and `LibAmp.Parser` with a record of this; without it they are the same
(`ownedDispatch_erase`, and `ownedConsumeBytes_erase` in `LibAmp.SingleOwner`).
-/

namespace LibAmp

open WhileLoop (Turn)

/-! ## Boxes and their fates -/

/-- What becomes of a box that is no longer in the proto. -/
inductive Fate where
  | handed
  | freed
  deriving DecidableEq, Repr

/-- The slot is `proto->box`. -/
abbrev Boxes := Custody Fate

/-- `amp_free_box`, which does nothing with a null pointer. -/
def ampFreeBox (boxes : Boxes) : Option Nat → Boxes
  | none => boxes
  | some id => boxes.record id .freed

/-- User code is given an object that holds the box, if there is one in it. -/
def handOver (boxes : Boxes) : Option Nat → Boxes
  | none => boxes
  | some id => boxes.record id .handed

/-! ## Dispatching -/

variable {U : Type}

/-- Where the dispatcher has got to, what it has changed, and what has become of the boxes. -/
structure Owned (U : Type) where
  flow : Flow
  proto : Dispatcher
  mem : Mem
  own : U
  boxes : Boxes

/-- `completeCall` for a result that holds box number `args`, or none. `amp_free_response` frees
that box, and `amp_free_error` none. -/
def ownedCompleteCall (proto : Dispatcher) (mem : Mem) (own : U) (askKey : Int32)
    (result : AmpResult) (args : Option Nat) (boxes : Boxes) : Owned U :=
  let (cb, outstandingRequests) := ampPopCallback proto.outstandingRequests askKey
  let proto := { proto with outstandingRequests := outstandingRequests }
  match cb with
  | none => ⟨.ret 0, proto, mem, own, ampFreeBox boxes args⟩
  | some cb =>
    match malloc .result mem with
    | (false, mem) => ⟨.ret enomem, proto, mem, own, ampFreeBox boxes args⟩
    | (true, mem) => ⟨.invoke (.callback cb result), proto, mem, own, handOver boxes args⟩

/-- `_amp_process_full_packet` on box number `id`. A request or a response holds the box, which
`amp_free_request` and `amp_free_response` free; `_amp_new_error_from_box` frees it if it
succeeds. -/
def ownedProcessFullPacket (write : WriteHandler U) (proto : Dispatcher) (mem : Mem)
    (box : AmpBox) (own : U) (id : Nat) (boxes : Boxes) : Except Fault (Owned U) :=
  if ampNumKeys box = 0 then .ok ⟨.ret ampBoxEmpty, proto, mem, own, boxes⟩
  else if ampHasKey box Key.command ≠ 0 then
    match ampNewRequestFromBox mem box with
    | (.error err, mem) => .ok ⟨.ret err, proto, mem, own, boxes⟩
    | (.ok request, mem) =>
      let boxes := boxes.release
      match ampGetResponder proto.responders request.command.cstring with
      | some responder =>
        .ok ⟨.invoke (.responder responder request), proto, mem, own, handOver boxes id⟩
      | none =>
        match request.askKey with
        | none => .ok ⟨.ret 0, proto, mem, own, ampFreeBox boxes id⟩
        | some askKey =>
          match ampSendUnhandledCommandError write proto mem request.command askKey own with
          | .error e => .error e
          | .ok w => .ok ⟨.ret w.ret, proto, w.mem, w.own, ampFreeBox boxes id⟩
  else if ampHasKey box Key.answer ≠ 0 then
    match ampNewResponseFromBox mem box with
    | (.error err, mem) => .ok ⟨.ret err, proto, mem, own, boxes⟩
    | (.ok response, mem) =>
      .ok (ownedCompleteCall proto mem own response.answerKey.toInt32 (.success response) id
        boxes.release)
  else if ampHasKey box Key.error ≠ 0 then
    match ampNewErrorFromBox mem box with
    | (.error err, mem) => .ok ⟨.ret err, proto, mem, own, boxes⟩
    | (.ok error, mem) =>
      .ok (ownedCompleteCall proto mem own error.answerKey (.error error) none
        (ampFreeBox boxes id).release)
  else .ok ⟨.ret ampReqKeyMissing, proto, mem, own, boxes⟩

/-- The same without the record: while there is a box in the proto, it is `box`. -/
def Owned.erase (box : AmpBox) (p : Owned U) : Progressed U :=
  ⟨p.flow, p.proto, p.boxes.held.map fun _ => box, p.mem, p.own⟩

theorem ownedCompleteCall_erase (proto : Dispatcher) (mem : Mem) (box : AmpBox) (own : U)
    (askKey : Int32) (result : AmpResult) (args : Option Nat) {boxes : Boxes}
    (released : boxes.held = none) :
    (ownedCompleteCall proto mem own askKey result args boxes).erase box =
      completeCall proto none mem own askKey result 0 := by
  have freed : (ampFreeBox boxes args).held = none := by cases args <;> exact released
  have handed : (handOver boxes args).held = none := by cases args <;> exact released
  unfold ownedCompleteCall completeCall
  rcases ampPopCallback proto.outstandingRequests askKey with ⟨_ | cb, outstanding⟩
  · simp only [Owned.erase, freed, Option.map_none]
  rcases malloc .result mem with ⟨_ | _, mem⟩
  · simp only [Owned.erase, freed, Option.map_none]
  · simp only [Owned.erase, handed, Option.map_none]

/-- Without the record of the boxes this is `_amp_process_full_packet`. -/
theorem ownedProcessFullPacket_erase (write : WriteHandler U) (proto : Dispatcher) (mem : Mem)
    (box : AmpBox) (own : U) {id : Nat} {boxes : Boxes} (held : boxes.held = some id) :
    (ownedProcessFullPacket write proto mem box own id boxes).map (Owned.erase box) =
      ampProcessFullPacket write proto (some box) mem box own := by
  have kept (flow : Flow) (mem : Mem) : Owned.erase box ⟨flow, proto, mem, own, boxes⟩ =
      ⟨flow, proto, some box, mem, own⟩ := by
    simp only [Owned.erase, held, Option.map_some]
  unfold ownedProcessFullPacket ampProcessFullPacket
  split
  · exact congrArg Except.ok (kept ..)
  split
  · rcases ampNewRequestFromBox mem box with ⟨err | request, mem⟩
    · exact congrArg Except.ok (kept ..)
    dsimp only
    rcases ampGetResponder proto.responders request.command.cstring with _ | responder
    · rcases request.askKey with _ | askKey
      · rfl
      · dsimp only
        cases ampSendUnhandledCommandError write proto mem request.command askKey own <;> rfl
    · rfl
  split
  · rcases ampNewResponseFromBox mem box with ⟨err | response, mem⟩
    · exact congrArg Except.ok (kept ..)
    · exact congrArg Except.ok (ownedCompleteCall_erase proto mem box own _ _ (some id) rfl)
  split
  · rcases ampNewErrorFromBox mem box with ⟨err | error, mem⟩
    · exact congrArg Except.ok (kept ..)
    · exact congrArg Except.ok (ownedCompleteCall_erase proto mem box own _ _ none rfl)
  · exact congrArg Except.ok (kept ..)

/-! ## The handler of the library -/

/-- `libraryDispatch` for the box in the proto. -/
def ownedDispatch (write : WriteHandler U) (user : UserCode U) :
    DispatchBox ((Dispatcher × U) × Boxes) :=
  fun mem box own =>
    match box, own.2.held with
    | some b, some id =>
      match ownedProcessFullPacket write own.1.1 mem b own.1.2 id own.2 with
      | .error e => .error e
      | .ok p =>
        let box := p.boxes.held.map fun _ => b
        match p.flow with
        | .ret code => .ok ⟨code, box, p.mem, ((p.proto, p.own), p.boxes)⟩
        | .invoke invocation =>
          match user invocation p.proto p.mem p.own with
          | .error e => .error e
          | .ok (proto, mem, own) => .ok ⟨0, box, mem, ((proto, own), p.boxes)⟩
    | _, _ => .error .nullDereference

variable {σ : Type}

def Dispatched.erase (r : Dispatched (σ × Boxes)) : Dispatched σ :=
  ⟨r.ret, r.box, r.mem, r.own.1⟩

theorem ownedDispatch_erase (write : WriteHandler U) (user : UserCode U) (mem : Mem)
    (box : Option AmpBox) (own : (Dispatcher × U) × Boxes) (held : own.2.held.isSome = box.isSome) :
    (ownedDispatch write user mem box own).map Dispatched.erase =
      libraryDispatch write user mem box own.1 := by
  rcases box with _ | b
  · rfl
  obtain ⟨id, slot⟩ := Option.isSome_iff_exists.1 held
  have same := ownedProcessFullPacket_erase write own.1.1 mem b own.1.2 slot
  simp only [ownedDispatch, libraryDispatch, slot, ← same]
  rcases ownedProcessFullPacket write own.1.1 mem b own.1.2 id own.2 with e | p
  · rfl
  simp only [Except.map, Owned.erase]
  rcases p.flow with code | invocation
  · rfl
  · dsimp only
    rcases user invocation p.proto p.mem p.own with e | ⟨proto, mem, own⟩ <;> rfl

/-! ## Consuming bytes -/

/-- `dispatchTurn`: `proto->box` is overwritten with the new box. -/
def ownedDispatchTurn (dispatch : DispatchBox (σ × Boxes)) (s : ConsumeLoop (σ × Boxes)) :
    Except Fault (Turn (ConsumeLoop (σ × Boxes)) (Int × Consumer (σ × Boxes))) :=
  match dispatch s.now.mem s.now.proto.box s.now.own with
  | .error e => .error e
  | .ok r =>
    let proto := { s.now.proto with error := r.ret, box := r.box }
    if proto.error ≠ 0 then .ok (.leave (proto.error, ⟨proto, r.mem, r.own⟩))
    else
      let (box, mem) := ampNewBox .box r.mem
      .ok (.again { s with
        now := ⟨{ proto with box := box }, mem, (r.own.1, r.own.2.fill box.isSome)⟩ })

def ownedConsumeTurn (dispatch : DispatchBox (σ × Boxes)) (s : ConsumeLoop (σ × Boxes)) :
    Except Fault (Turn (ConsumeLoop (σ × Boxes)) (Int × Consumer (σ × Boxes))) :=
  match s.rest with
  | [] => .ok (.leave (0, s.now))
  | _ :: _ =>
    match ampParseBox s.now.mem s.now.proto s.now.proto.box s.bytesConsumed s.rest with
    | .error e => .error e
    | .ok r =>
      let s : ConsumeLoop (σ × Boxes) :=
        { now := ⟨{ r.proto with box := r.box }, r.mem, s.now.own⟩
          rest := s.rest.drop r.bytesConsumed.toNat
          bytesConsumed := r.bytesConsumed }
      if r.status ≠ 0 then ownedDispatchTurn dispatch s
      else if s.now.proto.error ≠ 0 then .ok (.leave (s.now.proto.error, s.now))
      else .ok (.again s)

def ownedConsumeBytes (dispatch : DispatchBox (σ × Boxes)) (now : Consumer (σ × Boxes))
    (buf : List UInt8) : Except Fault (Int × Consumer (σ × Boxes)) :=
  if now.proto.error ≠ 0 then .ok (ampProtoError, now)
  else WhileLoop.run .outOfFuel (ownedConsumeTurn dispatch) (buf.length + 1) ⟨now, buf, 0⟩

end LibAmp
