import LibAmp.CallsOnHeap
import LibAmp.ConsumeOnHeap

/-!
# An application at work

An application with a proto may make any calls in any order, also from within its callbacks and
responders: `amp_consume_bytes` and `amp_cancel` then wait for these to return, and are waiting on
a stack when it calls the library again. This is what happens on values.

## Main definitions

* `Action` — what an application can do.
* `Client.step`, `Client.run` — the proto, the application and the calls that wait.
* `runSession` — the same from `amp_new_proto` on.
-/

namespace LibAmp

open OnHeap (Application Object Forgotten keeping displaced responderLost)

variable {U O : Type}

/-! ## What an application has -/

inductive Kind where
  | box
  | request
  | result
  | packet
  deriving DecidableEq, Repr

def OnHeap.Object.kind : Object → Kind
  | .box _ => .box
  | .request _ => .request
  | .result _ => .result
  | .packet _ => .packet

/-- The box of an object: a box itself, `request->args` or `result->response->args`. -/
def OnHeap.Object.args : Object → Option AmpBox
  | .box b => some b
  | .request r => some r.args
  | .result (.success r) => some r.args
  | _ => none

def OnHeap.Object.withArgs (args : AmpBox) : Object → Object
  | .box _ => .box args
  | .request r => .request { r with args := args }
  | .result (.success r) => .result (.success { r with args := args })
  | o => o

/-- The application is given an object. -/
def OnHeap.Application.give (app : Application U O) (o : O) : Application U O :=
  { app with objects := o :: app.objects }

/-- An object of the application, and the application without it. -/
def OnHeap.Application.take (app : Application U O) (i : Nat) : Option (O × Application U O) :=
  match app.objects[i]? with
  | none => none
  | some o => some (o, { app with objects := app.objects.eraseIdx i })

/-- A box to be passed to the library; without an index it is the null pointer. -/
def takeArgs (app : Application U Object) :
    Option Nat → Option (Option AmpBox × Application U Object)
  | none => some (none, app)
  | some i =>
    match app.take i with
    | some (.box box, app) => some (some box, app)
    | _ => none

def giveArgs (app : Application U Object) : Option AmpBox → Application U Object
  | none => app
  | some box => app.give (.box box)

/-! ## Actions -/

/-- What an application can do. Objects are given by their index, `returns` is the end of a
callback or of a responder. A call or a response is made with a box of its own, and the box of a
request or a response is freed with it: to pass `request->args` or `response->args` on as the
arguments of another call, or to free either by hand, is not among the actions. -/
inductive Action where
  | newBox
  | boxOp (kind : Kind) (object : Nat) (op : BoxOp)
  | release (kind : Kind) (object : Nat)
  | setWriteHandler (func arg : Nat)
  | addResponder (name : Nat) (func arg : Nat)
  | removeResponder (name : CString)
  | call (command : CString) (args : Option Nat) (func arg : Nat)
  | callNoAnswer (command : CString) (args : Option Nat)
  | cancel (askKey : Int32)
  | respond (request : Nat) (args : Option Nat)
  | consume (buf : List UInt8)
  | returns
  | reset

/-- What an action returns, or the user code that the library runs before it returns. -/
inductive Reply where
  | nothing
  | made (there : Bool)
  | code (ret : Int)
  | box (reply : BoxReply)
  | called (ret : Int) (askKey : Option UInt32)
  | responder (func arg : Nat)
  | callback (func arg : Nat)
  deriving DecidableEq, Repr

/-- A library call that waits for user code: the callback it frees then, and for
`amp_consume_bytes` the bytes that are left and `bytesConsumed`. -/
structure Frame (C : Type) where
  callback : C
  loop : Option (List UInt8 × Int)

/-- An application with its proto. -/
structure Client (U : Type) where
  proto : AmpProto
  mem : Mem
  app : Application U Object
  frames : List (Frame (Option Callback))
  gone : Forgotten

namespace Client

/-! ### Boxes and other objects -/

def newBox (c : Client U) : Reply × Client U :=
  match ampNewBox .box c.mem with
  | (none, mem) => (.made false, { c with mem := mem })
  | (some box, mem) => (.made true, { c with mem := mem, app := c.app.give (.box box) })

/-- An object of another kind, or one that is not there, cannot be used. -/
def boxOp (c : Client U) (kind : Kind) (i : Nat) (op : BoxOp) : Except Fault (Reply × Client U) :=
  match c.app.take i with
  | none => .error .outOfBounds
  | some (o, app) =>
    match o.args with
    | none => .error .nullDereference
    | some box =>
      if o.kind ≠ kind then .error .outOfBounds
      else
        match op.run c.mem (some box) with
        | .ok (reply, some box, mem) =>
          .ok (.box reply, { c with mem := mem, app := app.give (o.withArgs box) })
        | .ok (_, none, _) => .error .nullDereference
        | .error e => .error e

/-- `amp_free_box`, `amp_free_request`, `amp_free_result` or `free`. -/
def release (c : Client U) (kind : Kind) (i : Nat) : Except Fault (Reply × Client U) :=
  match c.app.take i with
  | none => .error .outOfBounds
  | some (o, app) =>
    if o.kind ≠ kind then .error .outOfBounds else .ok (.nothing, { c with app := app })

/-! ### The proto -/

def withDispatcher (c : Client U) (proto : Dispatcher) : Client U :=
  { c with proto := { c.proto with toDispatcher := proto } }

def addResponder (names : List CString) (c : Client U) (name func arg : Nat) :
    Except Fault (Reply × Client U) :=
  match names[name]? with
  | none => .error .outOfBounds
  | some command =>
    match ampAddResponder c.proto.toDispatcher c.mem command func arg with
    | .error e => .error e
    | .ok (proto, mem) =>
      .ok (.nothing, { c.withDispatcher proto with
        mem := mem
        gone := c.gone.addResponders
          (responderLost (fun n => c.mem (n + 1)) c.proto.responders ⟨command, func, arg⟩) })

def reset (c : Client U) : Reply × Client U :=
  let (proto, mem) := ampResetProto c.mem c.proto
  (.nothing, { c with proto := proto, mem := mem })

/-! ### Calls and responses -/

/-- A call with a box of the application; `gone` is what is forgotten after it. -/
def passing (c : Client U) (args : Option Nat)
    (send : Option AmpBox → Application U Object → Except Fault (Called (Application U Object)))
    (gone : Called (Application U Object) → Forgotten) : Except Fault (Reply × Client U) :=
  match takeArgs c.app args with
  | none => .error .outOfBounds
  | some (box, app) =>
    match send box app with
    | .error e => .error e
    | .ok v => .ok (.called v.ret v.askKey,
        { c.withDispatcher v.proto with
          mem := v.mem, app := giveArgs v.own v.args, gone := gone v })

def call (write : WriteHandler U) (c : Client U) (command : CString) (args : Option Nat)
    (func arg : Nat) : Except Fault (Reply × Client U) :=
  c.passing args
    (fun box app => ampCall (keeping write) c.proto.toDispatcher c.mem command box func arg app)
    fun v => c.gone.addCallbacks (displaced c.proto.toDispatcher v.askKey)

def callNoAnswer (write : WriteHandler U) (c : Client U) (command : CString)
    (args : Option Nat) : Except Fault (Reply × Client U) :=
  c.passing args
    (fun box app => ampCallNoAnswer (keeping write) c.proto.toDispatcher c.mem command box app)
    fun _ => c.gone

/-- The request stays with the application. -/
def respond (write : WriteHandler U) (c : Client U) (request : Nat) (args : Option Nat) :
    Except Fault (Reply × Client U) :=
  match c.app.take request with
  | some (.request r, app) =>
    match takeArgs app args with
    | none => .error .outOfBounds
    | some (box, app) =>
      match ampRespond (keeping write) c.proto.toDispatcher c.mem r box app with
      | .error e => .error e
      | .ok v => .ok (.code v.ret,
          { c with mem := v.mem, app := (giveArgs v.own v.args).give (.request r) })
  | _ => .error .outOfBounds

/-! ### User code -/

/-- The library runs user code and waits for it. -/
def enter (c : Client U) (loop : Option (List UInt8 × Int)) : Invocation → Reply × Client U
  | .responder r request => (.responder r.func r.arg,
      { c with app := c.app.give (.request request), frames := ⟨none, loop⟩ :: c.frames })
  | .callback cb result => (.callback cb.func cb.arg,
      { c with app := c.app.give (.result result), frames := ⟨some cb, loop⟩ :: c.frames })

def cancel (c : Client U) (askKey : Int32) : Reply × Client U :=
  let p := ampCancel c.proto.toDispatcher c.proto.box c.mem askKey c.app
  let c := { c.withDispatcher p.proto with mem := p.mem }
  match p.flow with
  | .ret code => (.code code, c)
  | .invoke invocation => c.enter none invocation

/-- What `amp_consume_bytes` works on. -/
def consumer (c : Client U) : Consumer (Dispatcher × Application U Object) :=
  ⟨c.proto.toParser, c.mem, (c.proto.toDispatcher, c.app)⟩

def withConsumer (c : Client U) (now : Consumer (Dispatcher × Application U Object)) : Client U :=
  { c with proto := OnHeap.protoOf now, mem := now.mem, app := now.own.2 }

def pumped (c : Client U) : Pumped (Application U Object) → Reply × Client U
  | .done ret now => (.code ret, c.withConsumer now)
  | .stopped invocation s =>
    (c.withConsumer s.now).enter (some (s.rest, s.bytesConsumed)) invocation

def consume (write : WriteHandler U) (c : Client U) (buf : List UInt8) :
    Except Fault (Reply × Client U) :=
  match consumeUpTo (keeping write) c.consumer buf with
  | .error e => .error e
  | .ok p => .ok (c.pumped p)

/-- User code returns to the call that has run it. A box that is in the proto by then is
forgotten. -/
def returns (write : WriteHandler U) (c : Client U) : Except Fault (Reply × Client U) :=
  match c.frames with
  | [] => .error .outOfBounds
  | frame :: frames =>
    match frame.loop with
    | none => .ok (.code 0, { c with frames := frames })
    | some (rest, bytesConsumed) =>
      match resume (keeping write) ⟨c.consumer, rest, bytesConsumed⟩ with
      | .error e => .error e
      | .ok p =>
        .ok (pumped { c with frames := frames, gone := c.gone.addBoxes c.proto.box.toList } p)

/-! ### Runs -/

/-- Perform an action. -/
def step (write : WriteHandler U) (names : List CString) (c : Client U) :
    Action → Except Fault (Reply × Client U)
  | .newBox => .ok c.newBox
  | .boxOp kind object op => c.boxOp kind object op
  | .release kind object => c.release kind object
  | .setWriteHandler func arg =>
    .ok (.nothing, c.withDispatcher (ampSetWriteHandler c.proto.toDispatcher func arg))
  | .addResponder name func arg => addResponder names c name func arg
  | .removeResponder name =>
    .ok (.nothing, c.withDispatcher (ampRemoveResponder c.proto.toDispatcher name))
  | .call command args func arg => c.call write command args func arg
  | .callNoAnswer command args => c.callNoAnswer write command args
  | .cancel askKey => .ok (c.cancel askKey)
  | .respond request args => c.respond write request args
  | .consume buf => c.consume write buf
  | .returns => c.returns write
  | .reset => .ok c.reset

/-- Perform some actions in order and collect the replies. -/
def run (write : WriteHandler U) (names : List CString) (c : Client U) :
    List Action → Except Fault (List Reply × Client U)
  | [] => .ok ([], c)
  | action :: actions =>
    match c.step write names action with
    | .error e => .error e
    | .ok (reply, c) =>
      match run write names c actions with
      | .error e => .error e
      | .ok (replies, c) => .ok (reply :: replies, c)

/-- Every action is performed in a state in which `rule` allows it. -/
def Throughout (rule : Client U → Action → Prop) (write : WriteHandler U) (names : List CString)
    (c : Client U) : List Action → Prop
  | [] => True
  | action :: actions => rule c action ∧
      ∀ reply c', c.step write names action = .ok (reply, c') →
        Throughout rule write names c' actions

section Throughout

variable {rule : Client U → Action → Prop} {write : WriteHandler U} {names : List CString}
  {c c' : Client U} {action : Action} {actions : List Action} {reply : Reply} {e : Fault}

theorem throughout_cons_error (stepped : c.step write names action = .error e) :
    rule c action ↔ c.Throughout rule write names (action :: actions) :=
  ⟨fun allowed => ⟨allowed, fun _ _ run => nomatch stepped.symm.trans run⟩, And.left⟩

theorem throughout_cons_ok (stepped : c.step write names action = .ok (reply, c')) :
    rule c action ∧ c'.Throughout rule write names actions ↔
      c.Throughout rule write names (action :: actions) := by
  refine ⟨fun ⟨allowed, later⟩ => ⟨allowed, fun _ _ run => ?_⟩,
    fun ⟨allowed, later⟩ => ⟨allowed, later _ _ stepped⟩⟩
  obtain ⟨-, rfl⟩ := Prod.mk.inj (Except.ok.inj (stepped.symm.trans run))
  exact later

/-- A run can be checked by performing it. -/
def decideThroughout [∀ c action, Decidable (rule c action)] (c : Client U) :
    (actions : List Action) → Decidable (c.Throughout rule write names actions)
  | [] => .isTrue trivial
  | action :: actions =>
    match stepped : c.step write names action with
    | .error _ => decidable_of_iff _ (throughout_cons_error stepped)
    | .ok (_, c') =>
      have := decideThroughout c' actions
      decidable_of_iff _ (throughout_cons_ok stepped)

instance [∀ c action, Decidable (rule c action)] :
    Decidable (c.Throughout rule write names actions) :=
  decideThroughout c actions

end Throughout

end Client

/-- From `amp_new_proto` on; without memory for a proto nothing is done. -/
def runSession (write : WriteHandler U) (names : List CString) (mem : Mem)
    (keyData : Buffer (256 + 1)) (valData : Buffer (256 * 256)) (state : U)
    (actions : List Action) : Except Fault (Option (List Reply × Client U)) :=
  match ampNewProto mem keyData valData with
  | .error e => .error e
  | .ok (none, _) => .ok none
  | .ok (some proto, mem) =>
    match Client.run write names ⟨proto, mem, ⟨state, []⟩, [], .nothing⟩ actions with
    | .error e => .error e
    | .ok r => .ok (some r)

end LibAmp
