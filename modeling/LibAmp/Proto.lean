import LibAmp.Box
import LibAmp.Table

/-!
# `struct AMP_Proto` (`amp_internal.h`, `dispatch.c`, `amp.c`)

The fields of a proto fall into two halves that are changed by different code. `Parser` is what
`amp_parse_box` and `amp_consume_bytes` work on, `Dispatcher` what calls, cancellations and
dispatched boxes work on. The `dispatch_box` field is a parameter of `ampConsumeBytes`.
-/

namespace LibAmp

/-! ## The parser half -/

/-- `enum amp_protocol_state`, and the values an `enum` can hold besides. -/
inductive ProtocolState where
  | keyLenRead | keyDataRead | valLenRead | valDataRead
  | undeclared (n : Nat)
  deriving DecidableEq, Repr

structure Parser where
  state : ProtocolState
  error : AmpError
  keyLen : Int
  keyData : Buffer (256 + 1)
  keyDataFetched : Int
  valLen : Int
  valData : Buffer (256 * 256)
  valDataFetched : Int
  box : Option AmpBox

/-! ## Callbacks and responders -/

/-- `struct _AMP_Callback`. Function and argument pointers are opaque numbers. -/
structure Callback where
  askKey : Int32
  func : Nat
  arg : Nat
  deriving DecidableEq, Repr

/-- `struct _AMP_Responder`. -/
structure Responder where
  command : CString
  func : Nat
  arg : Nat
  deriving DecidableEq, Repr

/-- Keys are compared as `unsigned int`, whatever type they were stored as. -/
def cmpCallbackKey (x y : UInt32) : Int := if x ≠ y then 1 else 0

def hashCallbackKey (key : UInt32) : UInt32 := key

def cmpResponderKey (key1 key2 : CString) : Int := strcmp key1 key2

def hashResponderKey (key : CString) : UInt32 :=
  key.bytes.foldl (fun hash c => 37 * hash + c.toUInt32) 0

abbrev CallbackMap := Table UInt32 Callback
abbrev ResponderMap := Table CString Responder

def ampNewCallback (mem : Mem) (func arg : Nat) : Option Callback × Mem :=
  match malloc .callback mem with
  | (false, mem) => (none, mem)
  | (true, mem) => (some ⟨0, func, arg⟩, mem)

def ampNewCallbackMap (mem : Mem) : Except Fault (Option CallbackMap × Mem) :=
  tableNew mem 0 cmpCallbackKey hashCallbackKey

/-- The key of the binding points at the `ask_key` field just set. -/
def ampPutCallback (mem : Mem) (cbMap : CallbackMap) (askKey : Int32) (callback : Callback) :
    AmpError × CallbackMap × Mem :=
  let callback := { callback with askKey := askKey }
  tablePut mem cbMap callback.askKey.toUInt32 callback

def ampPopCallback (cbMap : CallbackMap) (askKey : Int32) : Option Callback × CallbackMap :=
  tableRemove cbMap askKey.toUInt32

def ampNewResponder (mem : Mem) (command : CString) (func arg : Nat) : Option Responder × Mem :=
  match malloc .responder mem with
  | (false, mem) => (none, mem)
  | (true, mem) => (some ⟨command, func, arg⟩, mem)

def ampNewResponderMap (mem : Mem) : Except Fault (Option ResponderMap × Mem) :=
  tableNew mem 0 cmpResponderKey hashResponderKey

def ampPutResponder (mem : Mem) (respMap : ResponderMap) (responder : Responder) :
    AmpError × ResponderMap × Mem :=
  tablePut mem respMap responder.command responder

def ampGetResponder (respMap : ResponderMap) (command : CString) : Option Responder :=
  tableGet respMap command

/-- `_amp_remove_responder`. -/
def ampRemoveResponderBinding (respMap : ResponderMap) (command : CString) : ResponderMap :=
  (tableRemove respMap command).2

/-! ## The dispatcher half and the whole -/

/-- The `write` and `write_arg` fields, which `amp_new_proto` does not set. -/
inductive WriteSlot where
  | uninitialised
  | null
  | installed (func arg : Nat)
  deriving DecidableEq, Repr

structure Dispatcher where
  lastAskKey : UInt32
  write : WriteSlot
  outstandingRequests : CallbackMap
  responders : ResponderMap

structure AmpProto extends Parser, Dispatcher

/-- The parser fields as `amp_new_proto` sets them; the two arrays hold what was in memory. -/
def Parser.fresh (keyData : Buffer (256 + 1)) (valData : Buffer (256 * 256)) (box : AmpBox) :
    Parser where
  state := .keyLenRead
  error := 0
  keyLen := -1
  keyData := keyData
  keyDataFetched := 0
  valLen := -1
  valData := valData
  valDataFetched := 0
  box := some box

def ampNewProto (mem : Mem) (keyData : Buffer (256 + 1)) (valData : Buffer (256 * 256)) :
    Except Fault (Option AmpProto × Mem) :=
  match malloc .proto mem with
  | (false, mem) => .ok (none, mem)
  | (true, mem) =>
    match ampNewBox .box mem with
    | (none, mem) => .ok (none, mem)
    | (some box, mem) =>
      match ampNewCallbackMap mem with
      | .error e => .error e
      | .ok (none, mem) => .ok (none, mem)
      | .ok (some outstandingRequests, mem) =>
        match ampNewResponderMap mem with
        | .error e => .error e
        | .ok (none, mem) => .ok (none, mem)
        | .ok (some responders, mem) =>
          .ok (some
            { toParser := .fresh keyData valData box
              lastAskKey := 0
              write := .uninitialised
              outstandingRequests := outstandingRequests
              responders := responders }, mem)

/-- The parser half of `amp_reset_proto`. The result of `amp_new_box` is not checked. -/
def Parser.reset (mem : Mem) (proto : Parser) : Parser × Mem :=
  let (box, mem) := ampNewBox .box mem
  ({ proto with
    state := .keyLenRead
    keyLen := -1
    keyDataFetched := 0
    valLen := -1
    valDataFetched := 0
    box := box
    error := 0 }, mem)

def ampResetProto (mem : Mem) (proto : AmpProto) : AmpProto × Mem :=
  let (parser, mem) := proto.toParser.reset mem
  ({ proto with toParser := parser }, mem)

def ampSetWriteHandler (proto : Dispatcher) (func arg : Nat) : Dispatcher :=
  { proto with write := .installed func arg }

/-! ## Both maps are finite maps -/

theorem cmpCallbackKey_lawful (x y : UInt32) : cmpCallbackKey x y = 0 ↔ x = y := by
  by_cases h : x = y <;> simp [cmpCallbackKey, h]

theorem cmpResponderKey_lawful (x y : CString) : cmpResponderKey x y = 0 ↔ x = y :=
  strcmp_eq_zero

/-- Both tables of a dispatcher are well formed. -/
structure Dispatcher.WF (proto : Dispatcher) : Prop where
  outstanding : proto.outstandingRequests.WF
  responders : proto.responders.WF

/-- The callbacks waiting for an answer, by ask key. -/
def Dispatcher.outstanding (proto : Dispatcher) : Finmap (fun _ : UInt32 => Callback) :=
  proto.outstandingRequests.toMap

/-- The registered responders, by command name. -/
def Dispatcher.registered (proto : Dispatcher) : Finmap (fun _ : CString => Responder) :=
  proto.responders.toMap

/-- What `amp_new_proto` hands out: a fresh parser on an empty box, and two empty tables. -/
theorem ampNewProto_ok {mem mem' : Mem} {keyData : Buffer (256 + 1)}
    {valData : Buffer (256 * 256)} {proto : AmpProto}
    (h : ampNewProto mem keyData valData = .ok (some proto, mem')) :
    proto.toParser = .fresh keyData valData (AmpBox.new hashString) ∧
      proto.toDispatcher.WF ∧ proto.outstanding = ∅ ∧ proto.registered = ∅ ∧
      proto.lastAskKey = 0 ∧ proto.write = .uninitialised := by
  unfold ampNewProto ampNewBox at h
  rcases hproto : malloc .proto mem with ⟨_ | _, mem₁⟩ <;> simp only [hproto] at h
  · simp at h
  rcases hbox : malloc .box mem₁ with ⟨_ | _, mem₂⟩ <;> simp only [hbox] at h
  · simp at h
  rcases hcb : ampNewCallbackMap mem₂ with e | ⟨_ | callbacks, mem₃⟩ <;> simp only [hcb] at h
  · cases h
  · simp at h
  rcases hresp : ampNewResponderMap mem₃ with e | ⟨_ | responders, mem₄⟩ <;>
    simp only [hresp] at h
  · cases h
  · simp at h
  obtain ⟨rfl, -⟩ : _ = proto ∧ mem₄ = mem' := by simpa using h
  obtain ⟨wfCallbacks, noCallbacks⟩ := Table.wf_of_tableNew cmpCallbackKey_lawful hcb
  obtain ⟨wfResponders, noResponders⟩ := Table.wf_of_tableNew cmpResponderKey_lawful hresp
  exact ⟨rfl, ⟨wfCallbacks, wfResponders⟩, noCallbacks, noResponders, rfl, rfl⟩

/-- With memory to spare `amp_new_proto` succeeds. -/
theorem ampNewProto_plenty (keyData : Buffer (256 + 1)) (valData : Buffer (256 * 256)) :
    ∃ proto, ampNewProto plenty keyData valData = .ok (some proto, plenty) :=
  ⟨_, rfl⟩

end LibAmp
