import LibAmp.CallSpec

/-!
# Sessions of one proto

A session is a sequence of calls, cancellations, resets and inbound boxes, in any order and with
user code running in between: a function that invokes user code has not returned yet, and until
it does any other event may happen inside of it. The trace of a session records what each event
has shown.
-/

namespace LibAmp

variable {U : Type} {write : WriteHandler U}

/-! ## Events -/

/-- What happens to a proto. With `returned` the user code that was invoked last returns. -/
inductive SessionEvent where
  | call (command : CString) (args : AmpBox) (func arg : Nat)
  | cancel (askKey : Int32)
  | reset
  | inbound (box : AmpBox)
  | returned

/-- A proto, the user code that is running, innermost first, and the state of the owner. -/
structure Session (U : Type) where
  proto : AmpProto
  running : List Invocation
  own : U

/-- A session begins with a proto on which a write handler was set. -/
def Session.start (new : AmpProto) (wfunc warg : Nat) (own : U) : Session U where
  proto := { new with toDispatcher := ampSetWriteHandler new.toDispatcher wfunc warg }
  running := []
  own := own

/-- What an event shows: the value a function returned, unless user code is still running; the
ask key of a call; and the user code that was invoked. -/
structure Shown where
  ret : Option Int
  askKey : Option UInt32
  invoked : Option Invocation

/-- Go on with what a function of the dispatcher has come to. -/
def Session.progress (s : Session U) (p : Progressed U) : Shown × Session U :=
  let proto := { s.proto with toDispatcher := p.proto, box := p.box }
  match p.flow with
  | .ret code => (⟨some code, none, none⟩, ⟨proto, s.running, p.own⟩)
  | .invoke invocation =>
    (⟨none, none, some invocation⟩, ⟨proto, invocation :: s.running, p.own⟩)

/-- One event, with memory to spare. -/
def SessionEvent.step (write : WriteHandler U) (s : Session U) :
    SessionEvent → Except Fault (Shown × Session U)
  | .call command args func arg =>
    match ampCall write s.proto.toDispatcher plenty command (some args) func arg s.own with
    | .error e => .error e
    | .ok r =>
      .ok (⟨some r.ret, r.askKey, none⟩,
        ⟨{ s.proto with toDispatcher := r.proto }, s.running, r.own⟩)
  | .cancel askKey =>
    .ok (s.progress (ampCancel s.proto.toDispatcher s.proto.box plenty askKey s.own))
  | .reset =>
    .ok (⟨none, none, none⟩, ⟨(ampResetProto plenty s.proto).1, s.running, s.own⟩)
  | .inbound box =>
    match ampProcessFullPacket write s.proto.toDispatcher s.proto.box plenty box s.own with
    | .error e => .error e
    | .ok p => .ok (s.progress p)
  | .returned =>
    match s.running with
    | [] => .ok (⟨none, none, none⟩, s)
    | _ :: running => .ok (⟨some 0, none, none⟩, ⟨s.proto, running, s.own⟩)

/-- The boxes a session is about are well formed. -/
def SessionEvent.WF : SessionEvent → Prop
  | .call _ args _ _ => args.WF
  | .inbound box => box.WF
  | _ => True

/-! ## Traces -/

/-- An event with what it has shown, and the dispatcher before and after it. -/
structure Entry extends Shown where
  event : SessionEvent
  before : Dispatcher
  after : Dispatcher

/-- The entry of an event that took the session from `s` to `s'`. -/
def SessionEvent.entry (event : SessionEvent) (s : Session U) (shown : Shown) (s' : Session U) :
    Entry where
  toShown := shown
  event := event
  before := s.proto.toDispatcher
  after := s'.proto.toDispatcher

def Session.run (write : WriteHandler U) (s : Session U) :
    List SessionEvent → Except Fault (List Entry × Session U)
  | [] => .ok ([], s)
  | event :: events =>
    match event.step write s with
    | .error e => .error e
    | .ok (shown, s') =>
      match run write s' events with
      | .error e => .error e
      | .ok (trace, s'') => .ok (event.entry s shown s' :: trace, s'')

/-- The callback that a call which returned 0 stands for, under the next ask key. -/
def Entry.registered (e : Entry) : Option (UInt32 × Callback) :=
  match e.event, e.ret with
  | .call _ _ func arg, some 0 =>
    some (e.before.lastAskKey + 1, ⟨(e.before.lastAskKey + 1).toInt32, func, arg⟩)
  | _, _ => none

/-- The callback an event has invoked, and the result it was given. -/
def Entry.callback (e : Entry) : Option (Callback × AmpResult) :=
  match e.invoked with
  | some (.callback cb result) => some (cb, result)
  | _ => none

/-- Whether the ask key of a call is one that is still outstanding. -/
def Entry.wraps (e : Entry) : Bool :=
  match e.event with
  | .call .. => (tableGet e.before.outstandingRequests (e.before.lastAskKey + 1)).isSome
  | _ => false

/-! ## Addressing an ask key -/

/-- The ask key a box addresses, and the result that is due to the callback of that key. -/
def AmpBox.completes (box : AmpBox) : Option (UInt32 × AmpResult) :=
  if Key.command ∈ box.toMap then none
  else
    match box.toMap.lookup Key.answer with
    | some value => (answerKey value).map fun key => (key, .success ⟨key, box⟩)
    | none =>
      match box.toMap.lookup Key.error with
      | some value => (errorKey value).map fun key => (key, .error (box.remoteError key.toInt32))
      | none => none

/-- The ask key an event addresses, and the result that is due to the callback of that key. -/
def SessionEvent.addresses : SessionEvent → Option (UInt32 × AmpResult)
  | .cancel askKey => some (askKey.toUInt32, .cancel)
  | .inbound box => box.completes
  | _ => none

def Entry.addressed (e : Entry) : Option UInt32 := e.event.addresses.map (·.1)

/-- What a function returns that was given a key without a callback. -/
def SessionEvent.unknown : SessionEvent → Int
  | .cancel _ => ampNoSuchAskKey
  | _ => 0

/-! ## What a step does -/

variable {s s' : Session U} {event : SessionEvent} {shown : Shown} {box : AmpBox}

/-- A box that addresses a key comes to completing the call of that key. -/
theorem process_addressed {proto : Dispatcher} {held : Option AmpBox} {own : U} (wf : box.WF)
    {key : UInt32} {result : AmpResult} (h : box.completes = some (key, result)) :
    ampProcessFullPacket write proto held plenty box own =
      .ok (completeCall proto none plenty own key.toInt32 result 0) := by
  unfold AmpBox.completes at h
  split at h
  · cases h
  next noCommand =>
  split at h
  · next value hanswer =>
    obtain ⟨k, hk, same⟩ := Option.map_eq_some_iff.1 h
    obtain ⟨rfl, rfl⟩ := Prod.mk.inj same
    rcases process_answer write proto wf held own noCommand hanswer with
      ⟨none, -⟩ | ⟨k', hk', run⟩
    · rw [hk] at none
      cases none
    · obtain rfl : k = k' := Option.some.inj (hk.symm.trans hk')
      exact run
  · next noAnswer =>
    split at h
    · next value herror =>
      obtain ⟨k, hk, same⟩ := Option.map_eq_some_iff.1 h
      obtain ⟨rfl, rfl⟩ := Prod.mk.inj same
      rcases process_error write proto wf held own noCommand
        (Finmap.lookup_eq_none.1 noAnswer) herror with ⟨none, -⟩ | ⟨k', hk', run⟩
      · rw [hk] at none
        cases none
      · obtain rfl : k = k'.toUInt32 := Option.some.inj (hk.symm.trans hk')
        exact run
    · cases h

/-- Any other box leaves the dispatcher alone and invokes no callback. -/
theorem process_unaddressed {proto : Dispatcher} {held : Option AmpBox} {own : U}
    {p : Progressed U} (wf : box.WF) (none : box.completes = none)
    (h : ampProcessFullPacket write proto held plenty box own = .ok p) :
    p.proto = proto ∧ ∀ cb result, p.flow ≠ .invoke (.callback cb result) := by
  unfold AmpBox.completes at none
  split at none
  · next command =>
    obtain ⟨value, hvalue⟩ := Finmap.mem_iff.1 command
    rw [process_command write proto wf held own hvalue] at h
    grind
  next noCommand =>
  split at none
  · next value hanswer =>
    rcases process_answer write proto wf held own noCommand hanswer with
      ⟨-, err, -, run⟩ | ⟨k, hk, -⟩
    · obtain rfl := Except.ok.inj (run.symm.trans h)
      exact ⟨rfl, nofun⟩
    · simp [hk] at none
  · next noAnswer =>
    split at none
    · next value herror =>
      rcases process_error write proto wf held own noCommand
        (Finmap.lookup_eq_none.1 noAnswer) herror with ⟨-, err, -, run⟩ | ⟨k, hk, -⟩
      · obtain rfl := Except.ok.inj (run.symm.trans h)
        exact ⟨rfl, nofun⟩
      · simp [hk] at none
    · next noError =>
      obtain ⟨code, -, run⟩ := process_other write proto wf held own
        noCommand (Finmap.lookup_eq_none.1 noAnswer) (Finmap.lookup_eq_none.1 noError)
      obtain rfl := Except.ok.inj (run.symm.trans h)
      exact ⟨rfl, nofun⟩

end LibAmp
