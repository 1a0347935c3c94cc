import LibAmp.Integers
import LibAmp.Parser

/-!
# Calls, answers and dispatching (`amp.c`)

The functions that work on the dispatcher half of a proto. Where the source runs a callback or a
responder, it does so last: what follows is `_amp_free_callback` and `return 0`. So these
functions stop there, with the invocation still to be made as part of their result (`Flow`), and
whoever runs it may do anything with the proto, including further calls.
-/

namespace LibAmp

/-! ## Values handed to user code -/

/-- `struct AMP_Chunk`: bytes with a terminating NUL behind them. -/
structure AmpChunk where
  value : List UInt8
  deriving DecidableEq, Repr

def AmpChunk.size (c : AmpChunk) : Int := c.value.length

/-- The chunk taken for a C string. -/
def AmpChunk.cstring (c : AmpChunk) : CString := .ofBytes c.value

def ampChunkCopyBuffer (mem : Mem) (buf : List UInt8) : Option AmpChunk × Mem :=
  match malloc .chunk mem with
  | (false, mem) => (none, mem)
  | (true, mem) => (some ⟨buf⟩, mem)

structure AmpRequest where
  command : AmpChunk
  askKey : Option AmpChunk
  args : AmpBox

structure AmpResponse where
  answerKey : UInt32
  args : AmpBox

/-- `struct AMP_Error`. -/
structure RemoteError where
  answerKey : Int32
  errorCode : Option AmpChunk
  errorDescr : Option AmpChunk
  deriving DecidableEq, Repr

/-- `struct AMP_Result`, whose `reason` says which of the two pointers is valid. -/
inductive AmpResult where
  | success (response : AmpResponse)
  | error (error : RemoteError)
  | cancel

/-- The box that is handed over with a result. -/
def AmpResult.args : AmpResult → Option AmpBox
  | .success response => some response.args
  | _ => none

/-- A call of user code. -/
inductive Invocation where
  | responder (responder : Responder) (request : AmpRequest)
  | callback (callback : Callback) (result : AmpResult)

/-- Where a function has got to: it returns, or it runs user code and returns 0 after it. -/
inductive Flow where
  | ret (code : Int)
  | invoke (invocation : Invocation)

/-! ## Writing -/

/-- What the installed write handler, called with its argument, does to the state of its owner
and returns. -/
abbrev WriteHandler (U : Type) := Nat → Nat → List UInt8 → U → Int × U

variable {U : Type}

def ampDoWrite (write : WriteHandler U) (proto : Dispatcher) (buf : List UInt8) (own : U) :
    Except Fault (Int × U) :=
  match proto.write with
  | .uninitialised => .error .uninitialised
  | .null => .ok (1, own)
  | .installed func arg => .ok (write func arg buf own)

/-- What a function that may write returns and leaves behind. -/
structure Written (U : Type) where
  ret : Int
  mem : Mem
  own : U

/-- Serialize a box and hand the packet to `send`. -/
def serializeAndSend (send : List UInt8 → U → Except Fault (Int × U)) (mem : Mem) (box : AmpBox)
    (own : U) : Except Fault (Written U) :=
  match ampSerializeBox mem box with
  | .error e => .error e
  | .ok (.error err, mem) => .ok ⟨err, mem, own⟩
  | .ok (.ok packet, mem) =>
    match send packet own with
    | .error e => .error e
    | .ok (ret, own) => .ok ⟨ret, mem, own⟩

def errorUnhandled : CString := ⟨ascii "UNHANDLED", by decide⟩

def unhandledPrefix : List UInt8 := ascii "Unhandled Command: '"
def unhandledSuffix : List UInt8 := ascii "'"

/-- The packet goes to `proto->write` directly, without the check of `_amp_do_write`. -/
def ampSendUnhandledCommandError (write : WriteHandler U) (proto : Dispatcher) (mem : Mem)
    (command askKey : AmpChunk) (own : U) : Except Fault (Written U) :=
  match ampNewBox .errorBox mem with
  | (none, mem) => .ok ⟨enomem, mem, own⟩
  | (some box, mem) =>
    match ampPutBytes mem (some box) Key.error askKey.value askKey.size with
    | .error e => .error e
    | .ok r =>
      if r.ret ≠ 0 then .ok ⟨r.ret, r.mem, own⟩
      else
        match ampPutCstring r.mem r.box Key.errorCode errorUnhandled with
        | .error e => .error e
        | .ok r =>
          if r.ret ≠ 0 then .ok ⟨r.ret, r.mem, own⟩
          else
            match malloc .description r.mem with
            | (false, mem) => .ok ⟨enomem, mem, own⟩
            | (true, mem) =>
              let buf := unhandledPrefix ++ command.value ++ unhandledSuffix
              match ampPutBytes mem r.box Key.errorDescr buf buf.length with
              | .error e => .error e
              | .ok r =>
                if r.ret ≠ 0 then .ok ⟨r.ret, r.mem, own⟩
                else
                  match r.box with
                  | none => .error .nullDereference
                  | some box =>
                    serializeAndSend (fun packet own =>
                      match proto.write with
                      | .uninitialised => .error .uninitialised
                      | .null => .error .nullDereference
                      | .installed func arg => .ok (write func arg packet own)) r.mem box own

/-! ## Reading a box -/

/-- A chunk with the value of a key, if the key is there. -/
def optionalChunk (mem : Mem) (box : AmpBox) (key : CString) :
    Except AmpError (Option AmpChunk) × Mem :=
  if ampHasKey box key ≠ 0 then
    match ampGetBytes box key with
    | .error err => (.error err, mem)
    | .ok buf =>
      match ampChunkCopyBuffer mem buf with
      | (none, mem) => (.error enomem, mem)
      | (some chunk, mem) => (.ok (some chunk), mem)
  else (.ok none, mem)

def ampNewRequestFromBox (mem : Mem) (box : AmpBox) : Except AmpError AmpRequest × Mem :=
  match malloc .request mem with
  | (false, mem) => (.error enomem, mem)
  | (true, mem) =>
    match ampGetBytes box Key.command with
    | .error err => (.error err, mem)
    | .ok buf =>
      match ampChunkCopyBuffer mem buf with
      | (none, mem) => (.error enomem, mem)
      | (some command, mem) =>
        match optionalChunk mem box Key.ask with
        | (.error err, mem) => (.error err, mem)
        | (.ok askKey, mem) => (.ok ⟨command, askKey, box⟩, mem)

def ampNewResponseFromBox (mem : Mem) (box : AmpBox) : Except AmpError AmpResponse × Mem :=
  match malloc .response mem with
  | (false, mem) => (.error enomem, mem)
  | (true, mem) =>
    match ampGetUint box Key.answer with
    | .error err => (.error err, mem)
    | .ok key => (.ok ⟨key, box⟩, mem)

def ampNewErrorFromBox (mem : Mem) (box : AmpBox) : Except AmpError RemoteError × Mem :=
  match malloc .error mem with
  | (false, mem) => (.error enomem, mem)
  | (true, mem) =>
    match ampGetInt box Key.error with
    | .error err => (.error err, mem)
    | .ok key =>
      match optionalChunk mem box Key.errorCode with
      | (.error err, mem) => (.error err, mem)
      | (.ok errorCode, mem) =>
        match optionalChunk mem box Key.errorDescr with
        | (.error err, mem) => (.error err, mem)
        | (.ok errorDescr, mem) => (.ok ⟨key, errorCode, errorDescr⟩, mem)

/-! ## Dispatching a box -/

/-- Where a function of the dispatcher has got to, and what it has changed; `box` is the `box`
field of the proto. -/
structure Progressed (U : Type) where
  flow : Flow
  proto : Dispatcher
  box : Option AmpBox
  mem : Mem
  own : U

/-- Take the callback out of the table and give it its result, if there is memory for it. A key
without a callback is answered with `unknown`. -/
def completeCall (proto : Dispatcher) (box : Option AmpBox) (mem : Mem) (own : U) (askKey : Int32)
    (result : AmpResult) (unknown : Int) : Progressed U :=
  let (cb, outstandingRequests) := ampPopCallback proto.outstandingRequests askKey
  let proto := { proto with outstandingRequests := outstandingRequests }
  match cb with
  | none => ⟨.ret unknown, proto, box, mem, own⟩
  | some cb =>
    match malloc .result mem with
    | (false, mem) => ⟨.ret enomem, proto, box, mem, own⟩
    | (true, mem) => ⟨.invoke (.callback cb result), proto, box, mem, own⟩

/-- The box the proto was parsing is `held`; a request, a response or an error takes it over. -/
def ampProcessFullPacket (write : WriteHandler U) (proto : Dispatcher) (held : Option AmpBox)
    (mem : Mem) (box : AmpBox) (own : U) : Except Fault (Progressed U) :=
  if ampNumKeys box = 0 then .ok ⟨.ret ampBoxEmpty, proto, held, mem, own⟩
  else if ampHasKey box Key.command ≠ 0 then
    match ampNewRequestFromBox mem box with
    | (.error err, mem) => .ok ⟨.ret err, proto, held, mem, own⟩
    | (.ok request, mem) =>
      match ampGetResponder proto.responders request.command.cstring with
      | some responder => .ok ⟨.invoke (.responder responder request), proto, none, mem, own⟩
      | none =>
        match request.askKey with
        | none => .ok ⟨.ret 0, proto, none, mem, own⟩
        | some askKey =>
          match ampSendUnhandledCommandError write proto mem request.command askKey own with
          | .error e => .error e
          | .ok w => .ok ⟨.ret w.ret, proto, none, w.mem, w.own⟩
  else if ampHasKey box Key.answer ≠ 0 then
    match ampNewResponseFromBox mem box with
    | (.error err, mem) => .ok ⟨.ret err, proto, held, mem, own⟩
    | (.ok response, mem) =>
      .ok (completeCall proto none mem own response.answerKey.toInt32 (.success response) 0)
  else if ampHasKey box Key.error ≠ 0 then
    match ampNewErrorFromBox mem box with
    | (.error err, mem) => .ok ⟨.ret err, proto, held, mem, own⟩
    | (.ok error, mem) =>
      .ok (completeCall proto none mem own error.answerKey (.error error) 0)
  else .ok ⟨.ret ampReqKeyMissing, proto, held, mem, own⟩

/-- What callbacks and responders do to the proto, to the allocator and to the state of their
owner. -/
abbrev UserCode (U : Type) :=
  Invocation → Dispatcher → Mem → U → Except Fault (Dispatcher × Mem × U)

/-- `_amp_process_full_packet` as the `dispatch_box` handler of a proto. -/
def libraryDispatch (write : WriteHandler U) (user : UserCode U) : DispatchBox (Dispatcher × U) :=
  fun mem box own =>
    match box with
    | none => .error .nullDereference
    | some b =>
      match ampProcessFullPacket write own.1 box mem b own.2 with
      | .error e => .error e
      | .ok p =>
        match p.flow with
        | .ret code => .ok ⟨code, p.box, p.mem, p.proto, p.own⟩
        | .invoke invocation =>
          match user invocation p.proto p.mem p.own with
          | .error e => .error e
          | .ok (proto, mem, own) => .ok ⟨0, p.box, mem, proto, own⟩

/-! ## The calls of an application -/

/-- The key that was stored in `last_ask_key` is returned as an `int`. -/
def ampNextAskKey (proto : Dispatcher) : Int32 × Dispatcher :=
  let lastAskKey := proto.lastAskKey + 1
  (lastAskKey.toInt32, { proto with lastAskKey := lastAskKey })

/-- What `_amp_call` returns and leaves behind; `askKey` is what it stored in `*ask_key_ret`. -/
structure Called (U : Type) where
  ret : Int
  askKey : Option UInt32
  proto : Dispatcher
  args : Option AmpBox
  mem : Mem
  own : U

/-- The `error:` label of `_amp_call`. -/
def callFailed (ret : Int) (askKey : Int32) (cb : Option Callback) (proto : Dispatcher)
    (args : Option AmpBox) (mem : Mem) (own : U) (askKeyRet : Option UInt32) : Called U :=
  match cb with
  | none => ⟨ret, askKeyRet, proto, args, mem, own⟩
  | some _ =>
    ⟨ret, askKeyRet, { proto with
      outstandingRequests := (ampPopCallback proto.outstandingRequests askKey).2 }, args, mem, own⟩

/-- The end of `_amp_call`: the result of the write handler is passed on as it is. -/
def callWrite (write : WriteHandler U) (askKey : Int32) (cb : Option Callback) (proto : Dispatcher)
    (args : AmpBox) (mem : Mem) (own : U) (askKeyRet : Option UInt32) :
    Except Fault (Called U) :=
  match ampSerializeBox mem args with
  | .error e => .error e
  | .ok (.error err, mem) =>
    .ok (callFailed err askKey cb proto (some args) mem own askKeyRet)
  | .ok (.ok packet, mem) =>
    match ampDoWrite write proto packet own with
    | .error e => .error e
    | .ok (ret, own) => .ok ⟨ret, askKeyRet, proto, some args, mem, own⟩

/-- `amp_call`: the static `_amp_call` with `requiresAnswer` set. -/
def ampCall (write : WriteHandler U) (proto : Dispatcher) (mem : Mem) (command : CString)
    (args : Option AmpBox) (callback callbackArg : Nat) (own : U) : Except Fault (Called U) :=
  match ampPutCstring mem args Key.command command with
  | .error e => .error e
  | .ok r =>
    if r.ret ≠ 0 then .ok (callFailed r.ret (-1) none proto r.box r.mem own none)
    else
      match ampNewCallback r.mem callback callbackArg with
      | (none, mem) => .ok (callFailed enomem (-1) none proto r.box mem own none)
      | (some cb, mem) =>
        let (askKey, proto) := ampNextAskKey proto
        let askKeyRet := some askKey.toUInt32
        match ampPutCallback mem proto.outstandingRequests askKey cb with
        | (ret, outstandingRequests, mem) =>
          let proto := { proto with outstandingRequests := outstandingRequests }
          if ret ≠ 0 then .ok (callFailed ret askKey (some cb) proto r.box mem own askKeyRet)
          else
            match ampPutUint mem r.box Key.ask proto.lastAskKey with
            | .error e => .error e
            | .ok r =>
              if r.ret ≠ 0 then
                .ok (callFailed r.ret askKey (some cb) proto r.box r.mem own askKeyRet)
              else
                match r.box with
                | none => .error .nullDereference
                | some args => callWrite write askKey (some cb) proto args r.mem own askKeyRet

/-- `amp_call_no_answer`: the static `_amp_call` with `requiresAnswer` clear. -/
def ampCallNoAnswer (write : WriteHandler U) (proto : Dispatcher) (mem : Mem) (command : CString)
    (args : Option AmpBox) (own : U) : Except Fault (Called U) :=
  match ampPutCstring mem args Key.command command with
  | .error e => .error e
  | .ok r =>
    if r.ret ≠ 0 then .ok (callFailed r.ret (-1) none proto r.box r.mem own none)
    else
      match r.box with
      | none => .error .nullDereference
      | some args =>
        callWrite write (-1) none proto (ampDelKey args Key.ask).1 r.mem own none

/-- Without memory for the result the callback is forgotten and never called. -/
def ampCancel (proto : Dispatcher) (held : Option AmpBox) (mem : Mem) (askKey : Int32) (own : U) :
    Progressed U :=
  completeCall proto held mem own askKey .cancel ampNoSuchAskKey

/-- What `amp_respond` returns and leaves behind. -/
structure Responded (U : Type) where
  ret : Int
  args : Option AmpBox
  mem : Mem
  own : U

def ampRespond (write : WriteHandler U) (proto : Dispatcher) (mem : Mem) (request : AmpRequest)
    (args : Option AmpBox) (own : U) : Except Fault (Responded U) :=
  match request.askKey with
  | none => .error .nullDereference
  | some askKey =>
    match ampPutBytes mem args Key.answer askKey.value askKey.size with
    | .error e => .error e
    | .ok r =>
      if r.ret ≠ 0 then .ok ⟨r.ret, r.box, r.mem, own⟩
      else
        match r.box with
        | none => .error .nullDereference
        | some args =>
          match serializeAndSend (ampDoWrite write proto) r.mem args own with
          | .error e => .error e
          | .ok w => .ok ⟨w.ret, some args, w.mem, w.own⟩

/-- The responder is used without a check, and the result of `_amp_put_responder` is dropped. -/
def ampAddResponder (proto : Dispatcher) (mem : Mem) (command : CString) (func arg : Nat) :
    Except Fault (Dispatcher × Mem) :=
  match ampNewResponder mem command func arg with
  | (none, _) => .error .nullDereference
  | (some responder, mem) =>
    match ampPutResponder mem proto.responders responder with
    | (_, responders, mem) => .ok ({ proto with responders := responders }, mem)

def ampRemoveResponder (proto : Dispatcher) (command : CString) : Dispatcher :=
  { proto with responders := ampRemoveResponderBinding proto.responders command }

end LibAmp
