import LibAmp.Lib.Guarded
import LibAmp.CommandDispatch
import LibAmp.Completion
import LibAmp.Delivery

/-!
# Two endpoints

A caller and a server, each the owner of a proto, joined by two streams of bytes. A write handler
puts its packet on a stream and returns 0; each stream is handed to the other side in chunks of
any size. The caller makes and cancels calls, the server keeps its requests and answers them, both
at any time, inside of a callback or a responder as well.

A library function that runs user code does nothing after it. What user code does is therefore
given as one list of actions: the callback that `amp_cancel` runs inside of a callback comes next
in that list.
-/

namespace LibAmp

/-- The box has none of the keys that belong to the protocol. -/
def AmpBox.Plain (box : AmpBox) : Prop := ∀ key ∈ specialKeys, key ∉ box.toMap

/-! ## The caller -/

/-- A call that was made. -/
structure Call where
  command : CString
  args : BoxMap
  func : Nat
  arg : Nat

/-- What the caller has put on its stream, the calls it has made and the results its callbacks
were given. -/
structure Caller where
  sent : List (List UInt8)
  calls : List Call
  results : List (Callback × AmpResult)

inductive CallerAction where
  | call (command : CString) (args : AmpBox) (func arg : Nat)
  | cancel (askKey : Int32)

def Caller.write : WriteHandler Caller :=
  fun _ _ packet own => (0, { own with sent := own.sent ++ [packet] })

/-- A callback keeps its result. -/
def Caller.invoked (own : Caller) : Invocation → Caller
  | .callback cb result => { own with results := own.results ++ [(cb, result)] }
  | .responder _ _ => own

def CallerAction.step (state : Dispatcher × Mem × Caller) :
    CallerAction → Except Fault (Dispatcher × Mem × Caller)
  | .call command args func arg =>
    match ampCall Caller.write state.1 state.2.1 command (some args) func arg state.2.2 with
    | .error e => .error e
    | .ok r =>
      if r.ret ≠ 0 then .ok (r.proto, r.mem, r.own)
      else
        .ok (r.proto, r.mem,
          { r.own with calls := r.own.calls ++ [⟨command, args.toMap, func, arg⟩] })
  | .cancel askKey =>
    let p := ampCancel state.1 none state.2.1 askKey state.2.2
    match p.flow with
    | .ret _ => .ok (p.proto, p.mem, p.own)
    | .invoke invocation => .ok (p.proto, p.mem, p.own.invoked invocation)

/-- What the caller's callbacks do, after they have kept their result. -/
abbrev CallerPolicy := Dispatcher → Caller → List CallerAction

def Caller.user (policy : CallerPolicy) : UserCode Caller :=
  fun invocation proto mem own =>
    Guarded.run CallerAction.step (proto, mem, own.invoked invocation)
      (policy proto (own.invoked invocation))

/-! ## The server -/

/-- What the server has put on its stream, the requests its responders have kept, and the boxes it
has answered them with. -/
structure Server where
  sent : List (List UInt8)
  requests : List (Responder × AmpRequest)
  answers : List (Nat × BoxMap)

/-- Answer the request that was kept under a number. -/
structure Answer where
  index : Nat
  args : AmpBox

def Server.write : WriteHandler Server :=
  fun _ _ packet own => (0, { own with sent := own.sent ++ [packet] })

/-- A responder keeps its request. -/
def Server.invoked (own : Server) : Invocation → Server
  | .responder responder request =>
    { own with requests := own.requests ++ [(responder, request)] }
  | .callback _ _ => own

def Answer.step (state : Dispatcher × Mem × Server) (answer : Answer) :
    Except Fault (Dispatcher × Mem × Server) :=
  match state.2.2.requests[answer.index]? with
  | none => .ok state
  | some (_, request) =>
    match ampRespond Server.write state.1 state.2.1 request (some answer.args) state.2.2 with
    | .error e => .error e
    | .ok r =>
      .ok (state.1, r.mem,
        { r.own with answers := r.own.answers ++ [(answer.index, answer.args.toMap)] })

/-- What the server's responders do, after they have kept their request. -/
abbrev ServerPolicy := Dispatcher → Server → List Answer

def Server.user (policy : ServerPolicy) : UserCode Server :=
  fun invocation proto mem own =>
    Guarded.run Answer.step (proto, mem, own.invoked invocation)
      (policy proto (own.invoked invocation))

/-! ## Both together -/

/-- Both endpoints, and how many bytes of each stream were handed over. -/
structure Net where
  caller : Consumer (Dispatcher × Caller)
  server : Consumer (Dispatcher × Server)
  toServer : Nat
  toCaller : Nat

def Net.requestBytes (net : Net) : List UInt8 := net.caller.own.2.sent.flatten

def Net.answerBytes (net : Net) : List UInt8 := net.server.own.2.sent.flatten

/-- Either side acts, or is handed the next `n` bytes. -/
inductive NetEvent where
  | act (action : CallerAction)
  | answer (answer : Answer)
  | deliverToServer (n : Nat) (policy : ServerPolicy)
  | deliverToCaller (n : Nat) (policy : CallerPolicy)

def Net.step (net : Net) : NetEvent → Except Fault Net
  | .act action =>
    match action.step (net.caller.own.1, net.caller.mem, net.caller.own.2) with
    | .error e => .error e
    | .ok (proto, mem, own) =>
      .ok { net with caller := { net.caller with mem := mem, own := (proto, own) } }
  | .answer answer =>
    match answer.step (net.server.own.1, net.server.mem, net.server.own.2) with
    | .error e => .error e
    | .ok (proto, mem, own) =>
      .ok { net with server := { net.server with mem := mem, own := (proto, own) } }
  | .deliverToServer n policy =>
    match ampConsumeBytes (libraryDispatch Server.write (Server.user policy)) net.server
        ((net.requestBytes.drop net.toServer).take n) with
    | .error e => .error e
    | .ok (_, server) => .ok { net with server := server, toServer := net.toServer + n }
  | .deliverToCaller n policy =>
    match ampConsumeBytes (libraryDispatch Caller.write (Caller.user policy)) net.caller
        ((net.answerBytes.drop net.toCaller).take n) with
    | .error e => .error e
    | .ok (_, caller) => .ok { net with caller := caller, toCaller := net.toCaller + n }

/-- `amp_add_responder`, once for each responder. -/
def addResponders (proto : Dispatcher) (mem : Mem) :
    List Responder → Except Fault (Dispatcher × Mem)
  | [] => .ok (proto, mem)
  | r :: responders =>
    match ampAddResponder proto mem r.command r.func r.arg with
    | .error e => .error e
    | .ok (proto, mem) => addResponders proto mem responders

/-- Both sides before anything was called. -/
def Net.start (caller : Parser) (calling : Dispatcher) (server : Parser) (serving : Dispatcher) :
    Net where
  caller := ⟨caller, plenty, calling, ⟨[], [], []⟩⟩
  server := ⟨server, plenty, serving, ⟨[], [], []⟩⟩
  toServer := 0
  toCaller := 0

/-! ## What may happen -/

/-- A call is for a command the server has a responder for, its arguments have no special keys,
its packet fits a C `int`, and there are fewer than 2³² calls. -/
def CallerAction.Allowed (server : Dispatcher) (state : Dispatcher × Mem × Caller) :
    CallerAction → Prop
  | .call command args _ _ =>
    args.WF ∧ args.Plain ∧
      (∃ responder, ampGetResponder server.responders command = some responder) ∧
      state.2.2.calls.length + 1 < 2 ^ 32 ∧
      (serializedBytes (args.asking command (state.1.lastAskKey + 1))).length ≤ intMax
  | .cancel _ => True

/-- An answer is for a request that was kept and not answered yet, has no special keys, and its
packet fits a C `int`. -/
structure Answer.Allowed (state : Dispatcher × Mem × Server) (answer : Answer) : Prop where
  kept : answer.index < state.2.2.requests.length
  once : answer.index ∉ state.2.2.answers.map (·.1)
  wf : answer.args.WF
  plain : answer.args.Plain
  fits : ∀ responder request key, state.2.2.requests[answer.index]? = some (responder, request) →
    request.askKey = some key →
    (serializedBytes (answer.args.add Key.answer key.value)).length ≤ intMax

/-- Only bytes that were sent are handed over, and user code takes allowed actions only. -/
def NetEvent.Allowed (net : Net) : NetEvent → Prop
  | .act action =>
    action.Allowed net.server.own.1 (net.caller.own.1, net.caller.mem, net.caller.own.2)
  | .answer a => a.Allowed (net.server.own.1, net.server.mem, net.server.own.2)
  | .deliverToServer n policy =>
    net.toServer + n ≤ net.requestBytes.length ∧ ∀ proto own,
      Guarded.Allowed Answer.Allowed Answer.step (proto, plenty, own) (policy proto own)
  | .deliverToCaller n policy =>
    net.toCaller + n ≤ net.answerBytes.length ∧ ∀ proto own,
      Guarded.Allowed (CallerAction.Allowed net.server.own.1) CallerAction.step
        (proto, plenty, own) (policy proto own)

end LibAmp
