import LibAmp.Dispatch
import LibAmp.Lib.Linked

/-!
# The structs on the heap

The blocks the library allocates, with their pointers. `Box`, `Table` and `Proto` model the same
structs as values; what follows models where they are, so that it can say which block is freed
by whom.
-/

namespace LibAmp.OnHeap

open Heap Linked

/-- `struct AMP_Box`, the array of chain heads behind it included. -/
structure BoxStruct where
  size : Nat
  hash : CString → UInt32
  length : Int
  buckets : Fin size → Ptr
  size_pos : 0 < size

/-- `struct Table`, the array of chain heads behind it included. The functions it is used with
are a parameter of the functions of `table.c`. -/
structure TableStruct where
  size : Nat
  length : Int
  buckets : Fin size → Ptr
  size_pos : 0 < size

/-- `struct AMP_Proto`, but for `dispatch_box`, which `amp_new_proto` sets once and for all. -/
structure ProtoStruct where
  state : ProtocolState
  error : AmpError
  keyLen : Int
  keyData : Buffer (256 + 1)
  keyDataFetched : Int
  valLen : Int
  valData : Buffer (256 * 256)
  valDataFetched : Int
  lastAskKey : UInt32
  write : WriteSlot
  outstandingRequests : Ptr
  responders : Ptr
  box : Ptr

/-- `enum amp_result_reason`. -/
inductive ResultReason where
  | success
  | error
  | cancel
  deriving DecidableEq, Repr

/-- A block, by the struct in it. A block fresh from `MALLOC` is `raw`. The application's command
names are `text`. -/
inductive Block where
  | raw
  | box (b : BoxStruct)
  | binding (link keyval : Ptr)
  | keyval (kv : AmpKeyValue)
  | table (t : TableStruct)
  | tableBinding (link key value : Ptr)
  | callback (cb : Callback)
  | responder (command : Ptr) (func arg : Nat)
  | text (s : CString)
  | chunk (c : AmpChunk)
  | request (command askKey args : Ptr)
  | response (answerKey : UInt32) (args : Ptr)
  | error (answerKey : Int32) (errorCode errorDescr : Ptr)
  | result (reason : ResultReason) (response error : Ptr)
  | bytes (bs : List UInt8)
  | proto (p : ProtoStruct)

/-- What a failing allocator leaves of a request, and what a serving one does with it. -/
abbrev BlockAllocator := Allocator Site Block

abbrev Program := Prog Block

def viewBox : Block → Option BoxStruct
  | .box b => some b
  | _ => none

def viewKeyval : Block → Option AmpKeyValue
  | .keyval kv => some kv
  | _ => none

def viewBinding : Block → Option (Ptr × Ptr)
  | .binding link keyval => some (link, keyval)
  | _ => none

/-- `struct binding` of `amp_internal.h`. -/
def bindingLayout : Layout Block Ptr where
  build := .binding
  view := viewBinding
  view_build _ _ := rfl

def viewTable : Block → Option TableStruct
  | .table t => some t
  | _ => none

def viewTableBinding : Block → Option (Ptr × Ptr × Ptr)
  | .tableBinding link key value => some (link, key, value)
  | _ => none

def viewCallback : Block → Option Callback
  | .callback cb => some cb
  | _ => none

def viewResponder : Block → Option (Ptr × Nat × Nat)
  | .responder command func arg => some (command, func, arg)
  | _ => none

def viewText : Block → Option CString
  | .text s => some s
  | _ => none

def viewChunk : Block → Option AmpChunk
  | .chunk c => some c
  | _ => none

def viewRequest : Block → Option (Ptr × Ptr × Ptr)
  | .request command askKey args => some (command, askKey, args)
  | _ => none

def viewResponse : Block → Option (UInt32 × Ptr)
  | .response answerKey args => some (answerKey, args)
  | _ => none

def viewError : Block → Option (Int32 × Ptr × Ptr)
  | .error answerKey errorCode errorDescr => some (answerKey, errorCode, errorDescr)
  | _ => none

def viewResult : Block → Option (ResultReason × Ptr × Ptr)
  | .result reason response error => some (reason, response, error)
  | _ => none

def viewBytes : Block → Option (List UInt8)
  | .bytes bs => some bs
  | _ => none

def viewProto : Block → Option ProtoStruct
  | .proto p => some p
  | _ => none

/-- `struct binding` of `table.c`: a key and a value, both pointers. -/
def tableLayout : Layout Block (Ptr × Ptr) where
  build link data := .tableBinding link data.1 data.2
  view := viewTableBinding
  view_build _ _ := rfl

/-- `box->hash(key) % box->size`. -/
def BoxStruct.bucketOf (b : BoxStruct) (key : CString) : Fin b.size :=
  ⟨(b.hash key).toNat % b.size, Nat.mod_lt _ b.size_pos⟩

end LibAmp.OnHeap
