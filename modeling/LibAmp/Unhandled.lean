import LibAmp.Faults
import LibAmp.Responding

/-!
# Unknown commands

A request no responder is registered for is answered with an error, if it has an `_ask` key. The
description in that error repeats the command between a prefix and a suffix and has to fit a
value itself. For a longer command the error cannot be built, and the unknown command becomes an
error of the connection.

## Main results

* `unhandled_answered_iff` — exactly when an unknown command is answered as it should be.
* `unhandled_too_long` — a command that is not.
-/

namespace LibAmp

variable {U : Type} {write : WriteHandler U} {proto : Dispatcher} {box : AmpBox}
  {command ask : List UInt8} {own : U} {wfunc warg : Nat}

/-! ## The error -/

def unhandledDescription (command : List UInt8) : List UInt8 :=
  unhandledPrefix ++ command ++ unhandledSuffix

theorem length_unhandledDescription (command : List UInt8) :
    (unhandledDescription command).length = command.length + 21 := by
  have pre : unhandledPrefix.length = 20 := by decide
  have suf : unhandledSuffix.length = 1 := by decide
  simp only [unhandledDescription, List.length_append, pre, suf]
  omega

/-- The longest command whose description fits a value. -/
def maxDescribed : Nat := maxValueLength - 21

/-- The error, without its description. -/
def codeBox (ask : List UInt8) : AmpBox :=
  (AmpBox.single Key.error ask).add Key.errorCode errorUnhandled.bytes

def unhandledBox (command ask : List UInt8) : AmpBox :=
  (codeBox ask).add Key.errorDescr (unhandledDescription command)

theorem codeBox_map (askLe : ask.length ≤ maxValueLength) :
    (codeBox ask).WF ∧ (codeBox ask).toMap =
      (Finmap.insert Key.error ask ∅).insert Key.errorCode errorUnhandled.bytes := by
  obtain ⟨wf₁, map₁⟩ := AmpBox.wf_single (show Storable Key.error ask from
    ⟨by decide, by decide, askLe⟩)
  obtain ⟨-, wf₂, map₂⟩ := wf₁.add (show Storable Key.errorCode errorUnhandled.bytes by decide)
  exact ⟨wf₂, by rw [codeBox, map₂, map₁]⟩

theorem storable_description (short : command.length ≤ maxDescribed) :
    Storable Key.errorDescr (unhandledDescription command) := by
  have length := length_unhandledDescription command
  refine ⟨by decide, by decide, ?_⟩
  simp only [maxDescribed, maxValueLength] at short ⊢
  omega

theorem unhandledBox_map (askLe : ask.length ≤ maxValueLength)
    (short : command.length ≤ maxDescribed) :
    (unhandledBox command ask).WF ∧ (unhandledBox command ask).toMap =
      ((Finmap.insert Key.error ask ∅).insert Key.errorCode errorUnhandled.bytes).insert
        Key.errorDescr (unhandledDescription command) := by
  obtain ⟨wf₂, map₂⟩ := codeBox_map askLe
  obtain ⟨-, wf₃, map₃⟩ := wf₂.add (storable_description short)
  exact ⟨wf₃, by rw [unhandledBox, map₃, map₂]⟩

/-- What a peer should be told about an unknown command: three entries, of which the description
names it. -/
structure IsUnhandledError (command ask : List UInt8) (m : BoxMap) : Prop where
  keys : m.keys = {Key.error, Key.errorCode, Key.errorDescr}
  error : m.lookup Key.error = some ask
  code : m.lookup Key.errorCode = some (ascii "UNHANDLED")
  descr : ∃ descr, m.lookup Key.errorDescr = some descr ∧ command <:+: descr

theorem unhandledBox_error (askLe : ask.length ≤ maxValueLength)
    (short : command.length ≤ maxDescribed) :
    IsUnhandledError command ask (unhandledBox command ask).toMap := by
  have code_error : Key.error ≠ Key.errorCode := by decide
  have descr_error : Key.error ≠ Key.errorDescr := by decide
  have descr_code : Key.errorCode ≠ Key.errorDescr := by decide
  obtain ⟨-, map⟩ := unhandledBox_map askLe short
  rw [map]
  constructor
  case keys =>
    ext key
    simp only [Finmap.mem_keys, Finmap.mem_insert, Finset.mem_insert, Finset.mem_singleton,
      Finmap.notMem_empty, or_false]
    exact or_rotate.trans or_left_comm
  case error =>
    rw [Finmap.lookup_insert_of_ne _ descr_error, Finmap.lookup_insert_of_ne _ code_error,
      Finmap.lookup_insert]
  case code =>
    rw [Finmap.lookup_insert_of_ne _ descr_code, Finmap.lookup_insert]
    rfl
  case descr =>
    exact ⟨_, Finmap.lookup_insert _, unhandledPrefix, unhandledSuffix, rfl⟩

/-! ## Sending it -/

/-- `proto->write(..)`, without a look at the slot. -/
def writeUnchecked (write : WriteHandler U) (proto : Dispatcher) (packet : List UInt8) (mem : Mem)
    (own : U) : Except Fault (Written U) :=
  match proto.write with
  | .uninitialised => .error .uninitialised
  | .null => .error .nullDereference
  | .installed func arg =>
    .ok ⟨(write func arg packet own).1, mem, (write func arg packet own).2⟩

section Sending

variable (askLe : ask.length ≤ maxValueLength)
include askLe

theorem codeBox_puts :
    ampPutBytes plenty (some (AmpBox.new hashString)) Key.error ask ask.length =
        .ok ⟨0, some (AmpBox.single Key.error ask), plenty⟩ ∧
      ampPutCstring plenty (some (AmpBox.single Key.error ask)) Key.errorCode errorUnhandled =
        .ok ⟨0, some (codeBox ask), plenty⟩ := by
  have storable : Storable Key.error ask := ⟨by decide, by decide, askLe⟩
  have putError := ((AmpBox.wf_new hashString).add storable).1
  have putCode := ((AmpBox.wf_single storable).1.add
    (show Storable Key.errorCode errorUnhandled.bytes by decide)).1
  exact ⟨putError, putCode⟩

variable (write proto own) in
/-- If the description fits, the error goes to the write handler. -/
theorem ampSendUnhandledCommandError_short (short : command.length ≤ maxDescribed) :
    ampSendUnhandledCommandError write proto plenty ⟨command⟩ ⟨ask⟩ own =
      writeUnchecked write proto (serializedBytes (unhandledBox command ask)) plenty own := by
  obtain ⟨putError, putCode⟩ := codeBox_puts askLe
  have putDescr := ((codeBox_map askLe).1.add (storable_description short)).1
  obtain ⟨wf, -⟩ := unhandledBox_map askLe short
  have nonempty := (codeBox_map askLe).1.add_numKeys (storable_description short)
  have few : (unhandledBox command ask).toMap.keys.card ≤ 3 := by
    rw [(unhandledBox_error askLe short).keys]
    exact Finset.card_le_three
  have serialized := wf.serialize nonempty (wf.fits_of_card_le few)
  simp only [ampSendUnhandledCommandError, ampNewBox, malloc_plenty, AmpChunk.size, putError,
    putCode, ← unhandledDescription.eq_def, putDescr, ne_eq, not_true_eq_false, ↓reduceIte,
    serializeAndSend, show (codeBox ask).add _ _ = unhandledBox command ask from rfl, serialized,
    writeUnchecked]
  cases proto.write <;> rfl

variable (write proto own) in
/-- Otherwise nothing is sent, and the error is one of the connection. -/
theorem ampSendUnhandledCommandError_long (long : maxDescribed < command.length) :
    ampSendUnhandledCommandError write proto plenty ⟨command⟩ ⟨ask⟩ own =
      .ok ⟨ampBadValSize, plenty, own⟩ := by
  obtain ⟨putError, putCode⟩ := codeBox_puts askLe
  have tooLong : maxValueLength < (unhandledDescription command).length := by
    rw [length_unhandledDescription]
    simp only [maxDescribed, maxValueLength] at long ⊢
    omega
  have putDescr : ampPutBytes plenty (some (codeBox ask)) Key.errorDescr _ _ = _ :=
    ampPutBytes_long (by decide) tooLong
  simp only [ampSendUnhandledCommandError, ampNewBox, malloc_plenty, AmpChunk.size, putError,
    putCode, ← unhandledDescription.eq_def, putDescr, ne_eq, ampBadValSize_ne_zero,
    not_true_eq_false, not_false_eq_true, ↓reduceIte]

end Sending

/-! ## Dispatching an unknown command -/

/-- The unknown command runs no user code, leaves the proto as it was and out of the error state,
and is answered with one packet if the peer asked for an answer. -/
def UnhandledAnswered (write : WriteHandler U) (wfunc warg : Nat) (proto : Dispatcher)
    (box : AmpBox) (command : List UInt8) (own : U) : Prop :=
  ∃ p, ampProcessFullPacket write proto (some box) plenty box own = .ok p ∧
    p.flow = .ret 0 ∧ p.proto = proto ∧
    (∀ user (s : ConsumeLoop (Dispatcher × U)), s.now.proto.box = some box →
      s.now.mem = plenty → s.now.own = (proto, own) →
        ∃ s', dispatchTurn (libraryDispatch write user) s = .ok (.again s') ∧
          s'.now.proto.error = 0 ∧ s'.now.own = (proto, p.own)) ∧
    match box.toMap.lookup Key.ask with
    | some ask => ∃ packet m, DecodesTo packet m ∧ IsUnhandledError command ask m ∧
        p.own = (write wfunc warg packet own).2
    | none => p.own = own

/-- A box whose dispatching returned 0 without running user code leaves the proto without an
error. -/
theorem dispatchTurn_returned {p : Progressed U}
    (processed : ampProcessFullPacket write proto (some box) plenty box own = .ok p)
    (returned : p.flow = .ret 0) (user : UserCode U) {s : ConsumeLoop (Dispatcher × U)}
    (held : s.now.proto.box = some box) (mem : s.now.mem = plenty)
    (state : s.now.own = (proto, own)) :
    ∃ s', dispatchTurn (libraryDispatch write user) s = .ok (.again s') ∧
      s'.now.proto.error = 0 ∧ s'.now.own = (p.proto, p.own) := by
  simp only [dispatchTurn, held, mem, state, libraryDispatch, processed, returned, ne_eq,
    not_true_eq_false, ↓reduceIte]
  exact ⟨_, rfl, rfl, rfl⟩

section Dispatch

variable (write own) (wf : box.WF) (hcommand : box.toMap.lookup Key.command = some command)
include wf hcommand

/-- A responder registered for the part of the command before a NUL is run instead. -/
theorem process_found (protoWf : proto.WF) (found : CString.ofBytes command ∈ proto.registered) :
    ∃ p invocation, ampProcessFullPacket write proto (some box) plenty box own = .ok p ∧
      p.flow = .invoke invocation := by
  obtain ⟨responder, registered⟩ := Finmap.mem_iff.1 found
  have get : ampGetResponder proto.responders (.ofBytes command) = some responder :=
    (protoWf.responders.get _).trans registered
  rw [process_command write proto wf _ own hcommand, get]
  exact ⟨_, _, rfl, rfl⟩

variable (protoWf : proto.WF) (unknown : CString.ofBytes command ∉ proto.registered)
include protoWf unknown

theorem process_unknown_told (told : box.toMap.lookup Key.ask = none) :
    ampProcessFullPacket write proto (some box) plenty box own =
      .ok ⟨.ret 0, proto, none, plenty, own⟩ := by
  have get : ampGetResponder proto.responders (.ofBytes command) = none :=
    (protoWf.responders.get _).trans (Finmap.lookup_eq_none.2 unknown)
  rw [process_command write proto wf _ own hcommand, get, told]
  rfl

theorem process_unknown_asked (asked : box.toMap.lookup Key.ask = some ask) :
    ampProcessFullPacket write proto (some box) plenty box own =
      match ampSendUnhandledCommandError write proto plenty ⟨command⟩ ⟨ask⟩ own with
      | .error e => .error e
      | .ok w => .ok ⟨.ret w.ret, proto, none, w.mem, w.own⟩ := by
  have get : ampGetResponder proto.responders (.ofBytes command) = none :=
    (protoWf.responders.get _).trans (Finmap.lookup_eq_none.2 unknown)
  rw [process_command write proto wf _ own hcommand, get, asked]
  rfl

end Dispatch

/-- A command that is found under no responder is answered exactly if its description fits. -/
theorem unknown_answered_iff (protoWf : proto.WF)
    (installed : proto.write = .installed wfunc warg)
    (writes : ∀ packet own, (write wfunc warg packet own).1 = 0) (wf : box.WF)
    (hcommand : box.toMap.lookup Key.command = some command)
    (unknown : CString.ofBytes command ∉ proto.registered) :
    UnhandledAnswered write wfunc warg proto box command own ↔
      (Key.ask ∈ box.toMap → command.length ≤ maxDescribed) := by
  rcases asked : box.toMap.lookup Key.ask with _ | ask
  · refine iff_of_true ?_ fun asks => absurd asks (Finmap.lookup_eq_none.1 asked)
    have processed := process_unknown_told write own wf hcommand protoWf unknown asked
    refine ⟨_, processed, rfl, rfl, fun user s => dispatchTurn_returned processed rfl user, ?_⟩
    rw [asked]
  have askLe := (wf.bounds asked).2.2
  have processed := process_unknown_asked write own wf hcommand protoWf unknown asked
  have present : Key.ask ∈ box.toMap := Finmap.mem_iff.2 ⟨ask, asked⟩
  by_cases short : command.length ≤ maxDescribed
  · refine iff_of_true ?_ fun _ => short
    rw [ampSendUnhandledCommandError_short write proto own askLe short, writeUnchecked, installed]
      at processed
    refine ⟨_, processed, congrArg Flow.ret (writes _ own), rfl,
      fun user s => dispatchTurn_returned processed (congrArg Flow.ret (writes _ own)) user, ?_⟩
    rw [asked]
    exact ⟨_, _, (unhandledBox_map askLe short).1.decodesTo, unhandledBox_error askLe short, rfl⟩
  · refine iff_of_false ?_ fun fits => short (fits present)
    rw [ampSendUnhandledCommandError_long write proto own askLe (by omega)] at processed
    rintro ⟨p, processed', returned, -⟩
    rw [processed] at processed'
    obtain rfl := Except.ok.inj processed'
    exact absurd (Flow.ret.inj returned) ampBadValSize_ne_zero

theorem unhandled_answered_iff (protoWf : proto.WF)
    (installed : proto.write = .installed wfunc warg)
    (writes : ∀ packet own, (write wfunc warg packet own).1 = 0) (wf : box.WF)
    (hcommand : box.toMap.lookup Key.command = some command)
    (unregistered : ∀ name : CString, name.bytes = command → name ∉ proto.registered) :
    UnhandledAnswered write wfunc warg proto box command own ↔
      (0 ∈ command → CString.ofBytes command ∉ proto.registered) ∧
        (Key.ask ∈ box.toMap → command.length ≤ maxDescribed) := by
  by_cases found : CString.ofBytes command ∈ proto.registered
  · have nul : 0 ∈ command := by
      by_contra nulFree
      exact unregistered _ (CString.ofBytes_of_nulFree nulFree) found
    refine iff_of_false ?_ fun condition => condition.1 nul found
    obtain ⟨p, invocation, processed, invoked⟩ := process_found write own wf hcommand protoWf found
    rintro ⟨p', processed', returned, -⟩
    rw [processed] at processed'
    obtain rfl := Except.ok.inj processed'
    rw [invoked] at returned
    cases returned
  · rw [unknown_answered_iff protoWf installed writes wf hcommand found]
    exact ⟨fun fits => ⟨fun _ => found, fits⟩, fun condition => condition.2⟩

/-! ## A command that is answered, and one that is not -/

/-- A new proto with a write handler, which has no responders. -/
theorem newDispatcher :
    ∃ proto : Dispatcher, proto.WF ∧ proto.registered = ∅ ∧ proto.write = .installed 0 0 := by
  obtain ⟨new, hnew⟩ := ampNewProto_plenty (.zeros _) (.zeros _)
  obtain ⟨-, wf, -, registered, -, -⟩ := ampNewProto_ok hnew
  exact ⟨ampSetWriteHandler new.toDispatcher 0 0, ⟨wf.outstanding, wf.responders⟩, registered, rfl⟩

theorem unhandled_answered_iff_sum :
    ∃ proto : Dispatcher, proto.WF ∧ proto.registered = ∅ ∧
      UnhandledAnswered acceptWrite 0 0 proto askBox (ascii "sum") [] := by
  obtain ⟨proto, wf, registered, installed⟩ := newDispatcher
  have none (name : CString) : name ∉ proto.registered := registered ▸ Finmap.notMem_empty
  exact ⟨proto, wf, registered, (unhandled_answered_iff wf installed (fun _ _ => rfl) askBox_map.1
    askBox_commanded fun name _ => none name).2 ⟨fun _ => none _, fun _ => by decide⟩⟩

def longCommand : List UInt8 := List.replicate 65515 97

def longBox : AmpBox := (AmpBox.single Key.command longCommand).add Key.ask (ascii "1")

theorem longBox_map : longBox.WF ∧
    longBox.toMap = (Finmap.insert Key.command longCommand ∅).insert Key.ask (ascii "1") := by
  have length : longCommand.length = 65515 := List.length_replicate
  have storable : Storable Key.command longCommand :=
    ⟨by decide, by decide, by rw [length]; decide⟩
  obtain ⟨wf₁, map₁⟩ := AmpBox.wf_single storable
  obtain ⟨-, wf, map⟩ := wf₁.add (show Storable Key.ask (ascii "1") by decide)
  exact ⟨wf, by rw [longBox, map, map₁]⟩

/-- A command that fits a value, but not its description: dispatching it is an error. -/
theorem unhandled_too_long :
    ∃ proto : Dispatcher, proto.WF ∧ proto.registered = ∅ ∧ proto.write = .installed 0 0 ∧
      longBox.WF ∧ longBox.toMap.lookup Key.command = some longCommand ∧
      longBox.toMap.lookup Key.ask = some (ascii "1") ∧
      (∃ p, ampProcessFullPacket acceptWrite proto (some longBox) plenty longBox [] = .ok p ∧
        p.flow = .ret ampBadValSize) ∧
      ¬ UnhandledAnswered acceptWrite 0 0 proto longBox longCommand [] := by
  obtain ⟨proto, protoWf, registered, installed⟩ := newDispatcher
  obtain ⟨wf, map⟩ := longBox_map
  have commanded : longBox.toMap.lookup Key.command = some longCommand := by
    rw [map, Finmap.lookup_insert_of_ne _ (by decide), Finmap.lookup_insert]
  have asked : longBox.toMap.lookup Key.ask = some (ascii "1") := by
    rw [map, Finmap.lookup_insert]
  have long : maxDescribed < longCommand.length := by
    rw [longCommand, List.length_replicate]
    decide
  have unknown : CString.ofBytes longCommand ∉ proto.registered :=
    registered ▸ Finmap.notMem_empty
  have processed := process_unknown_asked acceptWrite [] wf commanded protoWf unknown asked
  rw [ampSendUnhandledCommandError_long acceptWrite proto [] (by decide) long] at processed
  refine ⟨proto, protoWf, registered, installed, wf, commanded, asked, ⟨_, processed, rfl⟩, ?_⟩
  rw [unknown_answered_iff protoWf installed (fun _ _ => rfl) wf commanded unknown]
  intro fits
  have short := fits (Finmap.mem_iff.2 ⟨_, asked⟩)
  omega

end LibAmp
