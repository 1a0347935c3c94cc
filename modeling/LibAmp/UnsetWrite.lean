import LibAmp.Lib.Guarded
import LibAmp.ConsumeSpec
import LibAmp.Reuse
import LibAmp.Responding
import LibAmp.Unhandled

/-!
# A proto without a write handler

`amp_new_proto` does not initialise the write handler of a proto. The check for a null handler in
`_amp_do_write` therefore looks at whatever was in memory, and the error for an unknown command is
written without any check. So a proto on which no handler was set must not be used for anything
that gets as far as a packet.

## Main results

* `unset_write_iff` — the runs of such a proto that use the uninitialised handler.
* `unset_write_used` — a first call, and a request from the peer, that do.
-/

namespace LibAmp

open WhileLoop (Outcome)

variable {U : Type} {write : WriteHandler U} {proto : Dispatcher} {own : U}

/-! ## Using a proto -/

/-- Boxes that were made by the functions of `box.c`. -/
abbrev Args := { box : AmpBox // box.WF }

/-- What an application does with its proto, also in a callback or a responder. -/
inductive AppCall where
  | call (command : CString) (args : Args) (func arg : Nat)
  | callNoAnswer (command : CString) (args : Args)
  | respond (request : AmpRequest) (args : Args)
  | addResponder (command : CString) (func arg : Nat)
  | removeResponder (command : CString)

/-- One call, with memory to spare. -/
def AppCall.step (write : WriteHandler U) (state : Dispatcher × U) :
    AppCall → Except Fault (Dispatcher × U)
  | .call command args func arg =>
    (ampCall write state.1 plenty command (some args.1) func arg state.2).map
      fun r => (r.proto, r.own)
  | .callNoAnswer command args =>
    (ampCallNoAnswer write state.1 plenty command (some args.1) state.2).map
      fun r => (r.proto, r.own)
  | .respond request args =>
    (ampRespond write state.1 plenty request (some args.1) state.2).map fun r => (state.1, r.own)
  | .addResponder command func arg =>
    (ampAddResponder state.1 plenty command func arg).map fun r => (r.1, state.2)
  | .removeResponder command => .ok (ampRemoveResponder state.1 command, state.2)

/-- What callbacks and responders do: they change the state of their owner and make some calls. -/
abbrev AppCode (U : Type) := Invocation → Dispatcher → U → List AppCall × U

def AppCode.user (write : WriteHandler U) (code : AppCode U) : UserCode U :=
  fun invocation proto _ own =>
    match Guarded.run (AppCall.step write) (proto, (code invocation proto own).2)
        (code invocation proto own).1 with
    | .error e => .error e
    | .ok (proto, own) => .ok (proto, plenty, own)

/-- The application calls a function, or hands over bytes that arrived. -/
inductive ProtoUse (U : Type) where
  | app (call : AppCall)
  | bytes (code : AppCode U) (buf : List UInt8)

def ProtoUse.step (write : WriteHandler U) (now : Consumer (Dispatcher × U)) :
    ProtoUse U → Except Fault (Consumer (Dispatcher × U))
  | .app call => (call.step write now.own).map fun own => { now with own := own }
  | .bytes code buf =>
    (ampConsumeBytes (libraryDispatch write (code.user write)) now buf).map (·.2)

/-! ## Getting as far as a packet -/

/-- The call has a packet to write: its command fits a value, and the packet fits an `int`. -/
def AppCall.Emits (proto : Dispatcher) : AppCall → Prop
  | .call command args _ _ => command.bytes.length ≤ maxValueLength ∧
      (serializedBytes (args.1.asking command (proto.lastAskKey + 1))).length ≤ intMax
  | .callNoAnswer command args => command.bytes.length ≤ maxValueLength ∧
      (serializedBytes (args.1.telling command)).length ≤ intMax
  | .respond request args => ∃ askKey, request.askKey = some askKey ∧
      askKey.value.length ≤ maxValueLength ∧
      (serializedBytes (args.1.add Key.answer askKey.value)).length ≤ intMax
  | .addResponder _ _ _ => False
  | .removeResponder _ => False

/-- The box is a request that is answered with an error. -/
def AmpBox.EmitsError (box : AmpBox) (proto : Dispatcher) : Prop :=
  ∃ command ask, box.toMap.lookup Key.command = some command ∧
    box.toMap.lookup Key.ask = some ask ∧
    ampGetResponder proto.responders (.ofBytes command) = none ∧ command.length ≤ maxDescribed

/-- Dispatching the box sends an error, or runs user code that makes a call with a packet. -/
def AmpBox.Emits (write : WriteHandler U) (code : AppCode U) (box : AmpBox)
    (state : Dispatcher × U) : Prop :=
  box.EmitsError state.1 ∨
    ∃ p invocation, ampProcessFullPacket write state.1 (some box) plenty box state.2 = .ok p ∧
      p.flow = .invoke invocation ∧
      Guarded.Meets (fun state (call : AppCall) => call.Emits state.1) (AppCall.step write)
        (p.proto, (code invocation p.proto p.own).2) (code invocation p.proto p.own).1

/-- The byte completes such a box. -/
def Progress.Emits (write : WriteHandler U) (code : AppCode U) :
    Progress (Dispatcher × U) → UInt8 → Prop
  | .ongoing d, c => d.phase = .keyLenLow ∧ c = 0 ∧
      ∃ box, d.box = some box ∧ box.Emits write code d.own
  | .failed _ _ _, _ => False

/-- One byte, unless an error has stopped the decoder. -/
def Progress.take {σ : Type} (dispatch : DispatchBox σ) (p : Progress σ) (c : UInt8) :
    Except Fault (Progress σ) :=
  Progress.andThen (.ok p) fun d => d.step dispatch c

/-- The call has a packet to write, or one of the boxes in the bytes does. -/
def ProtoUse.Emits (write : WriteHandler U) (now : Consumer (Dispatcher × U)) :
    ProtoUse U → Prop
  | .app call => call.Emits now.own.1
  | .bytes code buf => ∃ d, Represents now d ∧
      Guarded.Meets (Progress.Emits write code)
        (Progress.take (libraryDispatch write (code.user write))) (.ongoing d) buf

/-! ## Calls -/

/-- What serializing a box comes to: its packet, if that fits an `int`, and otherwise an error or
a write past the allocation. -/
theorem AmpBox.WF.serialize_cases {box : AmpBox} (wf : box.WF) (nonempty : ampNumKeys box ≠ 0) :
    ((serializedBytes box).length ≤ intMax ∧
        ampSerializeBox plenty box = .ok (.ok (serializedBytes box), plenty)) ∨
      (¬ (serializedBytes box).length ≤ intMax ∧
        ((∃ err, ampSerializeBox plenty box = .ok (.error err, plenty)) ∨
          ampSerializeBox plenty box = .error .outOfBounds)) := by
  by_cases fits : ((serializedBytes box).length : Int) ≤ intMax
  · exact .inl ⟨fits, wf.serialize nonempty fits⟩
  · refine .inr ⟨fits, ?_⟩
    have small : (serializedSize box).toInt ≤ intMax := Int32.toInt_le _
    have large : ((serializedBytes box).length : Int) > (serializedSize box).toInt := by omega
    rw [ampSerializeBox_eq, if_pos large]
    split
    · exact .inl ⟨_, rfl⟩
    split
    · exact .inl ⟨_, rfl⟩
    · exact .inr rfl

/-- The outcome is the use of an uninitialised field if the condition holds, and otherwise it is not
and `kept` holds of it. -/
def UnsetIff {α : Type} (kept : α → Prop) (condition : Prop) (r : Except Fault α) : Prop :=
  (condition ∧ r = .error .uninitialised) ∨
    (¬ condition ∧ Outcome (fun e => e ≠ .uninitialised) kept r)

namespace UnsetIff

variable {α β : Type} {kept : α → Prop} {condition condition' : Prop} {r : Except Fault α}

theorem error_iff (h : UnsetIff kept condition r) : r = .error .uninitialised ↔ condition := by
  rcases h with ⟨holds, used⟩ | ⟨fails, outcome⟩
  · exact iff_of_true used holds
  · refine iff_of_false ?_ fails
    rintro rfl
    exact outcome rfl

theorem keeps (h : UnsetIff kept condition r) {a : α} (ok : r = .ok a) : kept a := by
  rcases h with ⟨-, used⟩ | ⟨-, outcome⟩
  · rw [ok] at used
    cases used
  · rw [ok] at outcome
    exact outcome

theorem of_iff (iff : r = .error .uninitialised ↔ condition) (keeps : ∀ a, r = .ok a → kept a) :
    UnsetIff kept condition r := by
  by_cases holds : condition
  · exact .inl ⟨holds, iff.2 holds⟩
  · refine .inr ⟨holds, ?_⟩
    cases r with
    | error e => exact fun used => holds (iff.1 (congrArg Except.error used))
    | ok a => exact keeps a rfl

theorem congr (h : UnsetIff kept condition r) (same : condition ↔ condition') :
    UnsetIff kept condition' r := by
  rwa [UnsetIff, ← same]

theorem map (h : UnsetIff kept condition r) {kept' : β → Prop} {f : α → β}
    (keeps : ∀ a, kept a → kept' (f a)) : UnsetIff kept' condition (r.map f) := by
  rcases h with ⟨holds, rfl⟩ | ⟨fails, outcome⟩
  · exact .inl ⟨holds, rfl⟩
  · refine .inr ⟨fails, ?_⟩
    cases r with
    | error e => exact outcome
    | ok a => exact keeps a outcome

theorem error {e : Fault} (h : UnsetIff kept condition (.error e)) {kept' : β → Prop} :
    UnsetIff kept' condition (.error e) := by
  rcases h with ⟨holds, used⟩ | ⟨fails, outcome⟩
  · exact .inl ⟨holds, congrArg Except.error (Except.error.inj used)⟩
  · exact .inr ⟨fails, outcome⟩

end UnsetIff

section Calls

variable {args : AmpBox} {command : CString} (wf : args.WF) (unset : proto.write = .uninitialised)
include wf unset

theorem callWrite_unset (nonempty : ampNumKeys args ≠ 0) (askKey : Int32) (cb : Option Callback)
    (askKeyRet : Option UInt32) :
    UnsetIff (fun r => r.proto.write = .uninitialised)
      ((serializedBytes args).length ≤ intMax)
      (callWrite write askKey cb proto args plenty own askKeyRet) := by
  unfold callWrite
  obtain ⟨fits, packet⟩ | ⟨large, ⟨err, failed⟩ | past⟩ := wf.serialize_cases nonempty
  · rw [packet]
    exact .inl ⟨fits, by simp only [ampDoWrite, unset]⟩
  · rw [failed]
    refine .inr ⟨large, ?_⟩
    cases cb <;> exact unset
  · rw [past]
    exact .inr ⟨large, show Fault.outOfBounds ≠ .uninitialised by decide⟩

theorem ampCall_unset (func arg : Nat) :
    UnsetIff (fun r => r.proto.write = .uninitialised)
      (command.bytes.length ≤ maxValueLength ∧
        (serializedBytes (args.asking command (proto.lastAskKey + 1))).length ≤ intMax)
      (ampCall write proto plenty command (some args) func arg own) := by
  by_cases short : command.bytes.length ≤ maxValueLength
  · rw [ampCall_short write proto func arg own wf short]
    have asking := (wf.asking (proto.lastAskKey + 1) short).2.2.1
    have called : (proto.called func arg).write = .uninitialised := unset
    refine (callWrite_unset asking called (wf.asking_numKeys _ short) _ _ _).congr ?_
    exact ⟨fun fits => ⟨short, fits⟩, fun both => both.2⟩
  · rw [ampCall_long (by omega)]
    exact .inr ⟨fun both => short both.1, unset⟩

theorem ampCallNoAnswer_unset :
    UnsetIff (fun r => r.proto.write = .uninitialised)
      (command.bytes.length ≤ maxValueLength ∧
        (serializedBytes (args.telling command)).length ≤ intMax)
      (ampCallNoAnswer write proto plenty command (some args) own) := by
  by_cases short : command.bytes.length ≤ maxValueLength
  · rw [ampCallNoAnswer_short write proto own wf short]
    refine (callWrite_unset (wf.telling short).1 unset (wf.telling_numKeys short) _ _ _).congr ?_
    exact ⟨fun fits => ⟨short, fits⟩, fun both => both.2⟩
  · rw [ampCallNoAnswer_long (by omega)]
    exact .inr ⟨fun both => short both.1, unset⟩

theorem ampRespond_unset (request : AmpRequest) :
    UnsetIff (fun _ => proto.write = .uninitialised)
      (∃ askKey, request.askKey = some askKey ∧ askKey.value.length ≤ maxValueLength ∧
        (serializedBytes (args.add Key.answer askKey.value)).length ≤ intMax)
      (ampRespond write proto plenty request (some args) own) := by
  unfold ampRespond
  cases request.askKey with
  | none =>
    refine .inr ⟨?_, show Fault.nullDereference ≠ .uninitialised by decide⟩
    rintro ⟨askKey, ⟨⟩, -⟩
  | some askKey =>
    by_cases short : askKey.value.length ≤ maxValueLength
    · have storable : Storable Key.answer askKey.value := ⟨by decide, by decide, short⟩
      obtain ⟨put, wf', -⟩ := wf.add storable
      simp only [AmpChunk.size, put, ne_eq, not_true_eq_false, ↓reduceIte, serializeAndSend]
      obtain ⟨fits, packet⟩ | ⟨large, ⟨err, failed⟩ | past⟩ :=
        wf'.serialize_cases (wf.add_numKeys storable)
      · rw [packet]
        exact .inl ⟨⟨askKey, rfl, short, fits⟩, by simp only [ampDoWrite, unset]⟩
      · rw [failed]
        refine .inr ⟨?_, unset⟩
        rintro ⟨_, ⟨⟩, -, fits⟩
        exact large fits
      · rw [past]
        refine .inr ⟨?_, show Fault.outOfBounds ≠ .uninitialised by decide⟩
        rintro ⟨_, ⟨⟩, -, fits⟩
        exact large fits
    · have put : ampPutBytes plenty (some args) Key.answer askKey.value _ = _ :=
        ampPutBytes_long (by decide) (by omega)
      simp only [AmpChunk.size, put, ne_eq, ampBadValSize_ne_zero, not_false_eq_true, ↓reduceIte]
      refine .inr ⟨?_, unset⟩
      rintro ⟨_, ⟨⟩, fits, -⟩
      exact short fits

end Calls

theorem AppCall.step_unset {state : Dispatcher × U} (unset : state.1.write = .uninitialised)
    (call : AppCall) :
    UnsetIff (fun state' => state'.1.write = .uninitialised) (call.Emits state.1)
      (call.step write state) := by
  cases call with
  | call command args func arg => exact (ampCall_unset args.2 unset func arg).map fun _ kept => kept
  | callNoAnswer command args => exact (ampCallNoAnswer_unset args.2 unset).map fun _ kept => kept
  | respond request args => exact (ampRespond_unset args.2 unset request).map fun _ kept => kept
  | addResponder command func arg => exact .inr ⟨id, unset⟩
  | removeResponder command => exact .inr ⟨id, unset⟩

/-- A list of calls uses the field if it comes to a call that does. -/
theorem AppCall.run_unset (write : WriteHandler U) (state : Dispatcher × U)
    (unset : state.1.write = .uninitialised) (calls : List AppCall) :
    UnsetIff (fun state' => state'.1.write = .uninitialised)
      (Guarded.Meets (fun state call => AppCall.Emits state.1 call) (AppCall.step write) state
        calls)
      (Guarded.run (AppCall.step write) state calls) := by
  have keeps (s : Dispatcher × U) (call : AppCall) (t : Dispatcher × U)
      (hs : s.1.write = .uninitialised) (h : call.step write s = .ok t) :
      t.1.write = .uninitialised := (call.step_unset hs).keeps h
  refine .of_iff ?_ fun t h => Guarded.run_keeps keeps unset h
  exact Guarded.run_error_iff keeps (fun s call hs => (call.step_unset hs).error_iff) unset calls

variable (write own) in
/-- So does a callback or a responder that makes these calls. -/
theorem AppCode.user_unset (code : AppCode U) (invocation : Invocation) (mem : Mem)
    (unset : proto.write = .uninitialised) :
    UnsetIff (fun r => r.1.write = .uninitialised ∧ r.2.1 = plenty)
      (Guarded.Meets (fun state call => AppCall.Emits state.1 call) (AppCall.step write)
        (proto, (code invocation proto own).2) (code invocation proto own).1)
      (code.user write invocation proto mem own) := by
  have ran := AppCall.run_unset write (proto, (code invocation proto own).2) unset
    (code invocation proto own).1
  have user : code.user write invocation proto mem own =
      (Guarded.run (AppCall.step write) (proto, (code invocation proto own).2)
        (code invocation proto own).1).map fun state => (state.1, plenty, state.2) := by
    unfold AppCode.user
    cases Guarded.run (AppCall.step write) (proto, (code invocation proto own).2)
      (code invocation proto own).1 <;> rfl
  rw [user]
  exact ran.map fun state kept => ⟨kept, rfl⟩

/-! ## Dispatching -/

theorem AmpBox.emits_iff_of_error {box : AmpBox} {code : AppCode U} {e : Fault}
    (failed : ampProcessFullPacket write proto (some box) plenty box own = .error e) :
    box.Emits write code (proto, own) ↔ box.EmitsError proto := by
  refine ⟨?_, .inl⟩
  rintro (emits | ⟨p, -, ok, -⟩)
  · exact emits
  · cases failed.symm.trans ok

theorem AmpBox.emits_iff_of_ok {box : AmpBox} (code : AppCode U) {p : Progressed U}
    (processed : ampProcessFullPacket write proto (some box) plenty box own = .ok p) :
    box.Emits write code (proto, own) ↔ box.EmitsError proto ∨
      ∃ invocation, p.flow = .invoke invocation ∧
        Guarded.Meets (fun state (call : AppCall) => call.Emits state.1) (AppCall.step write)
          (p.proto, (code invocation p.proto p.own).2) (code invocation p.proto p.own).1 := by
  refine or_congr_right ⟨?_, ?_⟩
  · rintro ⟨p', invocation, ok, invoked, met⟩
    cases processed.symm.trans ok
    exact ⟨invocation, invoked, met⟩
  · rintro ⟨invocation, invoked, met⟩
    exact ⟨p, invocation, processed, invoked, met⟩

section Dispatching

variable {box : AmpBox} (wf : box.WF) (unset : proto.write = .uninitialised)
include wf unset

theorem process_command_unset {command : List UInt8}
    (hcommand : box.toMap.lookup Key.command = some command) :
    UnsetIff (fun p => p.proto.write = .uninitialised ∧ p.mem = plenty) (box.EmitsError proto)
      (ampProcessFullPacket write proto (some box) plenty box own) := by
  rw [process_command write proto wf (some box) own hcommand]
  cases found : ampGetResponder proto.responders (.ofBytes command) with
  | some responder =>
    refine .inr ⟨?_, unset, rfl⟩
    rintro ⟨command', ask, hcommand', -, unknown, -⟩
    obtain rfl := Option.some.inj (hcommand.symm.trans hcommand')
    rw [found] at unknown
    cases unknown
  | none =>
    cases asked : box.toMap.lookup Key.ask with
    | none =>
      refine .inr ⟨?_, unset, rfl⟩
      rintro ⟨command', ask, -, hask, -⟩
      rw [asked] at hask
      cases hask
    | some ask =>
      have askLe := (wf.bounds asked).2.2
      simp only [Option.map_some]
      by_cases short : command.length ≤ maxDescribed
      · rw [ampSendUnhandledCommandError_short write proto own askLe short, writeUnchecked, unset]
        exact .inl ⟨⟨command, ask, hcommand, asked, found, short⟩, rfl⟩
      · rw [ampSendUnhandledCommandError_long write proto own askLe (by omega)]
        refine .inr ⟨?_, unset, rfl⟩
        rintro ⟨command', ask', hcommand', -, -, le⟩
        obtain rfl := Option.some.inj (hcommand.symm.trans hcommand')
        exact short le

theorem process_other_unset (hcommand : box.toMap.lookup Key.command = none) :
    UnsetIff (fun p => p.proto.write = .uninitialised ∧ p.mem = plenty) (box.EmitsError proto)
      (ampProcessFullPacket write proto (some box) plenty box own) := by
  have noCommand : Key.command ∉ box.toMap := Finmap.lookup_eq_none.1 hcommand
  have quiet : ¬ box.EmitsError proto := by
    rintro ⟨command, ask, found, -⟩
    rw [hcommand] at found
    cases found
  have completed (askKey : Int32) (result : AmpResult) :
      let p := completeCall proto none plenty own askKey result 0
      p.proto.write = .uninitialised ∧ p.mem = plenty := by
    dsimp only
    rw [completeCall_plenty]
    split <;> exact ⟨unset, rfl⟩
  refine .inr ⟨quiet, ?_⟩
  cases hanswer : box.toMap.lookup Key.answer with
  | some answer =>
    obtain ⟨-, err, -, processed⟩ | ⟨key, -, processed⟩ :=
      process_answer write proto wf (some box) own noCommand hanswer
    · rw [processed]
      exact ⟨unset, rfl⟩
    · rw [processed]
      exact completed _ _
  | none =>
    have noAnswer : Key.answer ∉ box.toMap := Finmap.lookup_eq_none.1 hanswer
    cases herror : box.toMap.lookup Key.error with
    | some error =>
      obtain ⟨-, err, -, processed⟩ | ⟨key, -, processed⟩ :=
        process_error write proto wf (some box) own noCommand noAnswer herror
      · rw [processed]
        exact ⟨unset, rfl⟩
      · rw [processed]
        exact completed _ _
    | none =>
      obtain ⟨code, -, processed⟩ := process_other write proto wf (some box) own noCommand
        noAnswer (Finmap.lookup_eq_none.1 herror)
      rw [processed]
      exact ⟨unset, rfl⟩

variable (write own) in
/-- The dispatcher itself uses the field for the error it answers a box with. -/
theorem ampProcessFullPacket_unset :
    UnsetIff (fun p => p.proto.write = .uninitialised ∧ p.mem = plenty) (box.EmitsError proto)
      (ampProcessFullPacket write proto (some box) plenty box own) := by
  cases hcommand : box.toMap.lookup Key.command with
  | some command => exact process_command_unset wf unset hcommand
  | none => exact process_other_unset wf unset hcommand

variable (write own) in
/-- The handler of the library uses it for that, or in the user code that it runs. -/
theorem libraryDispatch_unset (code : AppCode U) :
    UnsetIff (fun d => d.own.1.write = .uninitialised ∧ d.mem = plenty)
      (box.Emits write code (proto, own))
      (libraryDispatch write (code.user write) plenty (some box) (proto, own)) := by
  have processing := ampProcessFullPacket_unset write own wf unset
  cases processed : ampProcessFullPacket write proto (some box) plenty box own with
  | error e =>
    have returned : libraryDispatch write (code.user write) plenty (some box) (proto, own) =
        .error e := by
      simp only [libraryDispatch, processed]
    rw [processed] at processing
    rw [returned]
    exact processing.error.congr (AmpBox.emits_iff_of_error processed).symm
  | ok p =>
    rw [processed] at processing
    obtain ⟨unset', mem⟩ := processing.keeps rfl
    have quiet : ¬ box.EmitsError proto := fun emits => by
      cases processing.error_iff.2 emits
    have emits_iff := AmpBox.emits_iff_of_ok code processed
    rw [or_iff_right quiet] at emits_iff
    cases flow : p.flow with
    | ret code' =>
      simp only [libraryDispatch, processed, flow]
      refine .inr ⟨?_, unset', mem⟩
      rw [emits_iff, flow]
      rintro ⟨invocation, ⟨⟩, -⟩
    | invoke invocation =>
      simp only [flow, Flow.invoke.injEq, exists_eq_left'] at emits_iff
      rw [emits_iff]
      have returned : libraryDispatch write (code.user write) plenty (some box) (proto, own) =
          (code.user write invocation p.proto p.mem p.own).map
            fun r => ⟨0, p.box, r.2.1, r.1, r.2.2⟩ := by
        simp only [libraryDispatch, processed, flow]
        cases code.user write invocation p.proto p.mem p.own <;> rfl
      rw [returned]
      exact (code.user_unset write p.own invocation p.mem unset').map fun r kept => kept

end Dispatching

/-! ## Bytes -/

/-- What the decoder keeps: the field stays as it is, and so does the allocator. -/
def Progress.Kept : Progress (Dispatcher × U) → Prop
  | .ongoing d => d.own.1.write = .uninitialised ∧ d.mem = plenty ∧
      ∀ box, d.box = some box → box.WF
  | .failed _ _ own => own.1.write = .uninitialised

theorem BoxMap.put_mem (m : BoxMap) (key : CString) (buf : List UInt8) (n : Int) :
    (m.put plenty key buf n).2.2 = plenty := by
  unfold BoxMap.put
  simp only [malloc_plenty]
  grind

theorem ampPutBytes_plenty {box : Option AmpBox} (wf : ∀ b, box = some b → b.WF) (key : CString)
    (value : List UInt8) :
    Outcome (fun e => e ≠ .uninitialised) (fun r => r.mem = plenty ∧ ∀ b, r.box = some b → b.WF)
      (ampPutBytes plenty box key value value.length) := by
  cases box with
  | none =>
    simp only [ampPutBytes, ampPutBuf, malloc_plenty, gt_iff_lt, lt_self_iff_false]
    have nothing : ∀ b : AmpBox, (none : Option AmpBox) = some b → b.WF := by
      rintro b ⟨⟩
    split
    · exact ⟨rfl, nothing⟩
    split
    · exact ⟨rfl, nothing⟩
    · exact show Fault.nullDereference ≠ .uninitialised by decide
  | some b =>
    obtain ⟨b', put, wf', -⟩ := (wf b rfl).putBuf plenty key (le_refl (value.length : Int))
    have put : ampPutBytes plenty (some b) key value value.length = _ := put
    rw [put]
    refine ⟨BoxMap.put_mem _ _ _ _, ?_⟩
    intro b'' same
    exact Option.some.inj same ▸ wf'

theorem Decoder.store_unset {d : Decoder (Dispatcher × U)} (kept : Progress.Kept (.ongoing d))
    (key value : List UInt8) :
    Outcome (fun e => e ≠ .uninitialised) Progress.Kept (d.store key value) := by
  obtain ⟨unset, mem, wf⟩ := kept
  have put := ampPutBytes_plenty wf (.ofBytes key) value
  unfold store
  rw [mem]
  cases stored : ampPutBytes plenty d.box (.ofBytes key) value value.length with
  | error e =>
    rw [stored] at put
    exact put
  | ok r =>
    rw [stored] at put
    dsimp only
    split
    · exact unset
    · exact ⟨unset, put.1, put.2⟩

theorem Decoder.start_kept {d : Decoder (Dispatcher × U)} (kept : Progress.Kept (.ongoing d))
    (c : UInt8) : (d.start c).Kept := by
  unfold start
  split
  · exact kept.1
  · exact kept

/-- Completing a box uses the field if the box does. -/
theorem Decoder.finishBox_unset {d : Decoder (Dispatcher × U)}
    (kept : Progress.Kept (.ongoing d)) (code : AppCode U) :
    UnsetIff Progress.Kept (∃ box, d.box = some box ∧ box.Emits write code d.own)
      (d.finishBox (libraryDispatch write (code.user write))) := by
  obtain ⟨unset, mem, wf⟩ := kept
  unfold finishBox
  rw [mem]
  cases held : d.box with
  | none =>
    refine .inr ⟨?_, show Fault.nullDereference ≠ .uninitialised by decide⟩
    rintro ⟨box, ⟨⟩, -⟩
  | some box =>
    have dispatching := libraryDispatch_unset write d.own.2 (wf box held) unset code
    have only : box.Emits write code d.own ↔
        ∃ box', some box = some box' ∧ box'.Emits write code d.own := by
      constructor
      · exact fun emits => ⟨box, rfl, emits⟩
      · rintro ⟨box', ⟨⟩, emits⟩
        exact emits
    refine .congr ?_ only
    cases dispatched : libraryDispatch write (code.user write) plenty (some box) d.own with
    | error e =>
      rw [dispatched] at dispatching
      exact dispatching.error
    | ok r =>
      rw [dispatched] at dispatching
      obtain ⟨unset', mem'⟩ := dispatching.keeps rfl
      have quiet : ¬ box.Emits write code d.own := fun emits => by
        cases dispatching.error_iff.2 emits
      refine .inr ⟨quiet, ?_⟩
      dsimp only
      split
      · exact unset'
      · rw [mem']
        refine ⟨unset', rfl, ?_⟩
        rintro box' ⟨⟩
        exact AmpBox.wf_new hashString

/-- A decoder uses the field with the byte that completes a box that does. -/
theorem Progress.take_unset {p : Progress (Dispatcher × U)} (kept : p.Kept) (code : AppCode U)
    (c : UInt8) :
    UnsetIff Progress.Kept (p.Emits write code c)
      (p.take (libraryDispatch write (code.user write)) c) := by
  cases p with
  | failed ret mem own => exact .inr ⟨id, kept⟩
  | ongoing d =>
    rw [take, andThen_ongoing]
    unfold Decoder.step
    have other (phase : d.phase ≠ .keyLenLow) : ¬ (Progress.ongoing d).Emits write code c :=
      fun emits => phase emits.1
    cases phase : d.phase with
    | keyLenHigh => exact .inr ⟨other (by simp [phase]), Decoder.start_kept kept c⟩
    | keyLenLow =>
      dsimp only
      split
      · next zero =>
        refine (Decoder.finishBox_unset kept code).congr ?_
        exact ⟨fun emits => ⟨phase, zero, emits⟩, fun emits => emits.2.2⟩
      · next more => exact .inr ⟨fun emits => more emits.2.1, kept⟩
    | keyData len got =>
      refine .inr ⟨other (by simp [phase]), ?_⟩
      dsimp only
      split <;> exact kept
    | valLenHigh key => exact .inr ⟨other (by simp [phase]), kept⟩
    | valLenLow key high => exact .inr ⟨other (by simp [phase]), kept⟩
    | valData key len got =>
      refine .inr ⟨other (by simp [phase]), ?_⟩
      have stored (value : List UInt8) := Decoder.store_unset kept key value
      dsimp only
      split
      · have first := stored got
        cases hstore : d.store key got with
        | error e =>
          rw [hstore] at first
          exact first
        | ok p =>
          rw [hstore] at first
          cases p with
          | ongoing d' => exact Decoder.start_kept first c
          | failed ret mem own => exact first
      split
      · exact kept
      · exact stored _

/-! ## Uses of a proto -/

theorem Progress.run_take {σ : Type} (dispatch : DispatchBox σ) (p : Progress σ) (s : List UInt8) :
    Guarded.run (Progress.take dispatch) p s =
      Progress.andThen (.ok p) fun d => d.run dispatch s := by
  induction s generalizing p with
  | nil => cases p <;> rfl
  | cons c s ih =>
    cases p with
    | failed ret mem own =>
      rw [Guarded.run, show Progress.take dispatch (.failed ret mem own) c = _ from rfl]
      exact ih _
    | ongoing d =>
      rw [andThen_ongoing, Decoder.run_cons, Guarded.run, take, andThen_ongoing]
      cases d.step dispatch c with
      | error e => rfl
      | ok p => exact ih p

variable (write) in
/-- Decoding bytes uses the field if one of them completes a box that does. -/
theorem Decoder.run_unset {d : Decoder (Dispatcher × U)} (kept : Progress.Kept (.ongoing d))
    (code : AppCode U) (s : List UInt8) :
    UnsetIff Progress.Kept
      (Guarded.Meets (Progress.Emits write code)
        (Progress.take (libraryDispatch write (code.user write))) (.ongoing d) s)
      (d.run (libraryDispatch write (code.user write)) s) := by
  have keeps (p : Progress (Dispatcher × U)) (c : UInt8) (q : Progress (Dispatcher × U))
      (hp : p.Kept) (h : p.take (libraryDispatch write (code.user write)) c = .ok q) : q.Kept :=
    (p.take_unset hp code c).keeps h
  have run : d.run (libraryDispatch write (code.user write)) s = Guarded.run _ (.ongoing d) s :=
    (Progress.run_take _ (.ongoing d) s).symm
  rw [run]
  refine .of_iff ?_ fun q h => Guarded.run_keeps keeps kept h
  exact Guarded.run_error_iff keeps (fun p c hp => (p.take_unset hp code c).error_iff) kept s

/-- The write handler is not set, and unless the proto is in an error state it stands where some
decoder stands. -/
structure Consumer.Unset (now : Consumer (Dispatcher × U)) : Prop where
  unset : now.own.1.write = .uninitialised
  decodes : now.proto.error = 0 → ∃ d, Represents now d ∧ Progress.Kept (.ongoing d)

theorem ampConsumeBytes_unset {now : Consumer (Dispatcher × U)} (inv : now.Unset)
    (code : AppCode U) (buf : List UInt8) :
    UnsetIff (fun r => r.2.Unset) ((ProtoUse.bytes code buf).Emits write now)
      (ampConsumeBytes (libraryDispatch write (code.user write)) now buf) := by
  by_cases healthy : now.proto.error = 0
  · obtain ⟨d, rep, unset, mem, wf⟩ := inv.decodes healthy
    have keptBy {d' : Decoder (Dispatcher × U)} (rep' : Represents now d') :
        Progress.Kept (.ongoing d') := by
      refine ⟨rep'.own ▸ inv.unset, rep'.mem ▸ rep.mem.trans mem, ?_⟩
      intro box held
      exact wf box (rep.box ▸ rep'.box.trans held)
    have decoding {d' : Decoder (Dispatcher × U)} (rep' : Represents now d') :=
      Decoder.run_unset write (keptBy rep') code buf
    refine .of_iff ?_ ?_
    · constructor
      · intro used
        exact ⟨d, rep, (decoding rep).error_iff.1 (rep.consume_error_iff.1 used)⟩
      · rintro ⟨d', rep', met⟩
        exact rep'.consume_error_iff.2 ((decoding rep').error_iff.2 met)
    · intro r consumed
      have shown := rep.consume (libraryDispatch write (code.user write)) buf
      rw [consumed] at shown
      obtain ⟨p, run, shows⟩ := shown
      have kept := (decoding rep).keeps run
      cases p with
      | ongoing d' => exact ⟨shows.2.own ▸ kept.1, fun _ => ⟨d', shows.2, kept⟩⟩
      | failed ret mem own =>
        obtain ⟨-, code', failed, -, own'⟩ := shows
        exact ⟨own' ▸ kept, fun none => absurd (failed.symm.trans none) code'⟩
  · have latched : ampConsumeBytes (libraryDispatch write (code.user write)) now buf = _ :=
      ampConsumeBytes_latched healthy buf
    rw [latched]
    refine .inr ⟨?_, inv⟩
    rintro ⟨d, rep, -⟩
    exact healthy rep.noError

theorem ProtoUse.step_unset {now : Consumer (Dispatcher × U)} (inv : now.Unset)
    (use : ProtoUse U) : UnsetIff Consumer.Unset (use.Emits write now) (use.step write now) := by
  cases use with
  | app call =>
    refine (call.step_unset inv.unset).map fun own unset => ⟨unset, fun healthy => ?_⟩
    obtain ⟨d, rep, -, mem, wf⟩ := inv.decodes healthy
    exact ⟨{ d with own := own }, ⟨rep.noError, rep.atPhase, rep.box, rep.mem, rfl⟩,
      unset, mem, wf⟩
  | bytes code buf => exact (ampConsumeBytes_unset inv code buf).map fun r after => after

/-- A new proto is in this state. -/
theorem Consumer.unset_new {mem mem' : Mem} {keyData : Buffer (256 + 1)}
    {valData : Buffer (256 * 256)} {new : AmpProto}
    (hnew : ampNewProto mem keyData valData = .ok (some new, mem')) (own : U) :
    Consumer.Unset ⟨new.toParser, plenty, (new.toDispatcher, own)⟩ := by
  obtain ⟨parser, -, -, -, -, unset⟩ := ampNewProto_ok hnew
  refine ⟨unset, fun _ => ⟨.fresh (new.toDispatcher, own), .fresh parser _ _, unset, rfl, ?_⟩⟩
  rintro box ⟨⟩
  exact AmpBox.wf_new hashString

/-- A run of a proto on which no write handler was set uses its uninitialised handler exactly if
it comes to a call with a packet, or to a box that makes the dispatcher or user code write one. -/
theorem unset_write_iff (write : WriteHandler U) {mem mem' : Mem}
    {keyData : Buffer (256 + 1)} {valData : Buffer (256 * 256)} {new : AmpProto}
    (hnew : ampNewProto mem keyData valData = .ok (some new, mem')) (own : U)
    (uses : List (ProtoUse U)) :
    Guarded.run (ProtoUse.step write) ⟨new.toParser, plenty, (new.toDispatcher, own)⟩ uses ≠
        .error .uninitialised ↔
      ¬ Guarded.Meets (fun now use => use.Emits write now) (ProtoUse.step write)
        ⟨new.toParser, plenty, (new.toDispatcher, own)⟩ uses := by
  have keeps (now : Consumer (Dispatcher × U)) (use : ProtoUse U)
      (after : Consumer (Dispatcher × U)) (inv : now.Unset)
      (h : use.step write now = .ok after) : after.Unset := (use.step_unset inv).keeps h
  exact not_congr (Guarded.run_error_iff keeps
    (fun now use inv => (use.step_unset inv).error_iff) (Consumer.unset_new hnew own) uses)

/-- A responder that removes itself, and what it does to two requests: the first writes nothing,
the second is answered with an error. -/
theorem unset_write_iff_removed :
    ∃ new, ampNewProto plenty (.zeros _) (.zeros _) = .ok (some new, plenty) ∧
      ¬ Guarded.Meets (fun now use => use.Emits acceptWrite now) (ProtoUse.step acceptWrite)
        ⟨new.toParser, plenty, (new.toDispatcher, [])⟩
        [.app (.addResponder sumCommand 1 2),
          .bytes (fun _ _ own => ([.removeResponder sumCommand], own)) (serializedBytes askBox)] ∧
      Guarded.Meets (fun now use => use.Emits acceptWrite now) (ProtoUse.step acceptWrite)
        ⟨new.toParser, plenty, (new.toDispatcher, [])⟩
        [.app (.addResponder sumCommand 1 2),
          .bytes (fun _ _ own => ([.removeResponder sumCommand], own)) (serializedBytes askBox),
          .bytes (fun _ _ own => ([], own)) (serializedBytes askBox)] := by
  obtain ⟨new, hnew⟩ := ampNewProto_plenty (.zeros _) (.zeros _)
  have evaluated : ∀ r ∈ (ampNewProto plenty (.zeros _) (.zeros _)).toOption, ∀ new ∈ r.1,
      (Guarded.run (ProtoUse.step acceptWrite) ⟨new.toParser, plenty, (new.toDispatcher, [])⟩
        [.app (.addResponder sumCommand 1 2),
          .bytes (fun _ _ own => ([.removeResponder sumCommand], own))
            (serializedBytes askBox)]).toOption.isSome := by
    decide +kernel
  have used : ∀ r ∈ (ampNewProto plenty (.zeros _) (.zeros _)).toOption, ∀ new ∈ r.1,
      ((Guarded.run (ProtoUse.step acceptWrite) ⟨new.toParser, plenty, (new.toDispatcher, [])⟩
        [.app (.addResponder sumCommand 1 2),
          .bytes (fun _ _ own => ([.removeResponder sumCommand], own)) (serializedBytes askBox),
          .bytes (fun _ _ own => ([], own)) (serializedBytes askBox)]).map fun _ => ()) =
        .error .uninitialised := by
    decide +kernel
  have given : (some new, plenty) ∈ (ampNewProto plenty (.zeros _) (.zeros _)).toOption := by
    rw [hnew]
    rfl
  have quiet := evaluated _ given new rfl
  have used := used _ given new rfl
  refine ⟨new, hnew, (unset_write_iff acceptWrite hnew [] _).1 ?_, ?_⟩
  · intro failed
    rw [failed] at quiet
    cases quiet
  · by_contra none
    refine (unset_write_iff acceptWrite hnew [] _).2 none ?_
    generalize Guarded.run (ProtoUse.step acceptWrite) _ _ = r at used ⊢
    cases r with
    | error e => exact congrArg Except.error (Except.error.inj used)
    | ok after => cases used

/-! ## The uninitialised handler in use -/

/-- A box from the peer that comes to a new proto, and makes its dispatcher write an error. -/
theorem ampConsumeBytes_unset_new {mem mem' : Mem} {keyData : Buffer (256 + 1)}
    {valData : Buffer (256 * 256)} {new : AmpProto}
    (hnew : ampNewProto mem keyData valData = .ok (some new, mem')) {own : U}
    {packet : List UInt8} {m : BoxMap} (packs : IsPacket packet m) (code : AppCode U)
    (emits : ∀ box : AmpBox, box.toMap = m → box.EmitsError new.toDispatcher) :
    (ProtoUse.bytes code packet).step write ⟨new.toParser, plenty, (new.toDispatcher, own)⟩ =
      .error .uninitialised := by
  obtain ⟨parser, -, -, -, -, unset⟩ := ampNewProto_ok hnew
  obtain ⟨box, wf, map, run⟩ :=
    packs.run (libraryDispatch write (code.user write)) (new.toDispatcher, own) []
  have used := (libraryDispatch_unset write own wf unset code).error_iff.2 (.inl (emits box map))
  have rep : Represents ⟨new.toParser, plenty, (new.toDispatcher, own)⟩ (.fresh _) :=
    .fresh parser _ _
  have faults : (Decoder.fresh (new.toDispatcher, own)).run
      (libraryDispatch write (code.user write)) packet = .error .uninitialised := by
    rw [List.append_nil] at run
    rw [run, Decoder.finishBox, used]
    rfl
  exact congrArg (Except.map Prod.snd) (rep.consume_error_iff.2 faults)

/-- The first call, with memory that holds anything; and a request from the peer, also with
memory that is all zeros. -/
theorem unset_write_used :
    ∃ new, ampNewProto plenty (.zeros _) (.zeros _) = .ok (some new, plenty) ∧
      Guarded.run (ProtoUse.step acceptWrite) ⟨new.toParser, plenty, (new.toDispatcher, [])⟩
          [.app (.call sumCommand ⟨.new hashString, AmpBox.wf_new _⟩ 1 2)] =
        .error .uninitialised ∧
      (∀ code, Guarded.run (ProtoUse.step acceptWrite)
          ⟨new.toParser, plenty, (new.toDispatcher, [])⟩ [.bytes code (serializedBytes askBox)] =
        .error .uninitialised) ∧
      ampProcessFullPacket acceptWrite { new.toDispatcher with write := .null } (some askBox) plenty
          askBox [] = .error .nullDereference := by
  obtain ⟨new, hnew⟩ := ampNewProto_plenty (.zeros _) (.zeros _)
  obtain ⟨-, wf, -, registered, lastAskKey, unset⟩ := ampNewProto_ok hnew
  have unknown : CString.ofBytes (ascii "sum") ∉ new.registered :=
    registered ▸ Finmap.notMem_empty
  refine ⟨new, hnew, ?_, fun code => ?_, ?_⟩
  · have called : (AppCall.call sumCommand ⟨.new hashString, AmpBox.wf_new _⟩ 1 2).step
        acceptWrite (new.toDispatcher, []) = .error .uninitialised := by
      refine (AppCall.step_unset unset _).error_iff.2 ⟨by decide, ?_⟩
      rw [lastAskKey]
      decide
    rw [Guarded.run, ProtoUse.step, called]
    rfl
  · have unhandled (box : AmpBox) (same : box.toMap = askBox.toMap) :
        box.EmitsError new.toDispatcher := by
      refine ⟨ascii "sum", ascii "1", same ▸ askBox_commanded, same ▸ askBox_asked, ?_, by decide⟩
      exact (wf.responders.get _).trans (Finmap.lookup_eq_none.2 unknown)
    rw [Guarded.run, ampConsumeBytes_unset_new hnew askBox_map.1.isPacket code unhandled]
  · have zeroed : Dispatcher.WF { new.toDispatcher with write := .null } :=
      ⟨wf.outstanding, wf.responders⟩
    rw [process_unknown_asked acceptWrite [] askBox_map.1 askBox_commanded zeroed unknown
      askBox_asked, ampSendUnhandledCommandError_short acceptWrite _ [] (by decide) (by decide),
      writeUnchecked]

end LibAmp
