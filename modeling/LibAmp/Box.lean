import LibAmp.Lib.Buckets
import LibAmp.Runtime

/-!
# The box (`box.c`)

A box is a chained hash table from C strings to byte strings. This module translates its
operations; `LibAmp.BoxMap` shows that they are those of a finite map. The `timestamp` field is
only ever incremented and is left out.
-/

namespace LibAmp

def maxKeyLength : Nat := 0xff
def maxValueLength : Nat := 0xffff

/-! ## The special keys (`amp_internal.h`) -/

namespace Key

def command : CString := ⟨ascii "_command", by decide⟩
def ask : CString := ⟨ascii "_ask", by decide⟩
def answer : CString := ⟨ascii "_answer", by decide⟩
def error : CString := ⟨ascii "_error", by decide⟩
def errorCode : CString := ⟨ascii "_error_code", by decide⟩
def errorDescr : CString := ⟨ascii "_error_description", by decide⟩

end Key

/-- `struct amp_key_value`, with what `_amp_put_buf` has checked when it fills one in. -/
structure AmpKeyValue where
  key : CString
  keySize : Int
  value : List UInt8
  valueSize : Int
  keySize_eq : keySize = strlen key
  key_pos : 0 < strlen key
  key_le : strlen key ≤ maxKeyLength
  valueSize_eq : valueSize = value.length
  value_le : value.length ≤ maxValueLength
  deriving DecidableEq

/-- `struct AMP_Box`. The chains are lists of key/value pairs, head first. -/
structure AmpBox where
  size : Nat
  hash : CString → UInt32
  length : Int
  buckets : Fin size → List AmpKeyValue
  size_pos : 0 < size

def cmpString (key1 key2 : CString) : Int := strcmp key1 key2

/-- A `char` is signed, so a byte from 0x80 on is sign-extended before it is added. -/
def hashString (key : CString) : UInt32 :=
  key.bytes.foldl (fun hash c => (hash <<< 4) + c.toInt8.toInt32.toUInt32) 0

/-- `box->hash(key) % box->size`. -/
def AmpBox.bucketOf (box : AmpBox) (key : CString) : Fin box.size :=
  ⟨(box.hash key).toNat % box.size, Nat.mod_lt _ box.size_pos⟩

/-- The loop that looks for the binding of `key` in its bucket. -/
def AmpBox.find (box : AmpBox) (key : CString) : Option AmpKeyValue :=
  (box.buckets (box.bucketOf key)).find? fun p => cmpString key p.key = 0

/-- Replace the key/value pair of the binding found for this key. -/
def AmpBox.replace (box : AmpBox) (keyval : AmpKeyValue) : AmpBox :=
  { box with
    buckets := Function.update box.buckets (box.bucketOf keyval.key)
      (Buckets.modifyFirst (fun p => cmpString keyval.key p.key = 0) (fun _ => keyval)
        (box.buckets (box.bucketOf keyval.key))) }

/-- Link a new binding in as the head of its bucket. -/
def AmpBox.link (box : AmpBox) (keyval : AmpKeyValue) : AmpBox :=
  { box with
    buckets := Function.update box.buckets (box.bucketOf keyval.key)
      (keyval :: box.buckets (box.bucketOf keyval.key))
    length := box.length + 1 }

/-- Unlink the binding found for `key`, wherever it is in its bucket. -/
def AmpBox.unlink (box : AmpBox) (key : CString) : AmpBox :=
  { box with
    buckets := Function.update box.buckets (box.bucketOf key)
      ((box.buckets (box.bucketOf key)).eraseP fun p => cmpString key p.key = 0)
    length := box.length - 1 }

/-- The contents `amp_new_box` gives a box, for any hash function. -/
def AmpBox.new (hash : CString → UInt32) : AmpBox where
  size := 127
  hash := hash
  length := 0
  buckets _ := []
  size_pos := by decide

/-- `amp_new_box`, for the box of a proto or for another purpose. -/
def ampNewBox (site : Site) (mem : Mem) : Option AmpBox × Mem :=
  match malloc site mem with
  | (false, mem) => (none, mem)
  | (true, mem) => (some (AmpBox.new hashString), mem)

def ampNumKeys (box : AmpBox) : Int := box.length

def ampDelKey (box : AmpBox) (key : CString) : AmpBox × Int :=
  match box.find key with
  | some _ => (box.unlink key, 0)
  | none => (box, -1)

def ampHasKey (box : AmpBox) (key : CString) : Int :=
  let keySize : Int := strlen key
  match (box.buckets (box.bucketOf key)).find?
    (fun p => keySize = p.keySize ∧ cmpString key p.key = 0) with
  | some _ => 1
  | none => 0

/-- What `_amp_put_buf` returns and leaves behind. -/
structure PutResult where
  ret : AmpError
  box : Option AmpBox
  mem : Mem

/-- The box pointer is not looked at until the key and the value have been copied, so a `NULL`
box goes unnoticed when an earlier check fails. Reading `bufSize` bytes of a shorter buffer is
undefined. -/
def ampPutBuf (mem : Mem) (box : Option AmpBox) (key : CString) (buf : List UInt8)
    (bufSize : Int) : Except Fault PutResult :=
  let keySize := strlen key
  if hkey : keySize > maxKeyLength ∨ keySize = 0 then .ok ⟨ampBadKeySize, box, mem⟩
  else if hval : bufSize > maxValueLength ∨ bufSize < 0 then .ok ⟨ampBadValSize, box, mem⟩
  else
    match malloc .keyval mem with
    | (false, mem) => .ok ⟨enomem, box, mem⟩
    | (true, mem) =>
      if hbuf : bufSize > buf.length then .error .outOfBounds
      else
        let keyval : AmpKeyValue :=
          { key := key
            keySize := keySize
            value := buf.take bufSize.toNat
            valueSize := bufSize
            keySize_eq := rfl
            key_pos := by omega
            key_le := by omega
            valueSize_eq := by rw [List.length_take]; omega
            value_le := by rw [List.length_take]; omega }
        match box with
        | none => .error .nullDereference
        | some box =>
          match box.find key with
          | some _ => .ok ⟨0, some (box.replace keyval), mem⟩
          | none =>
            match malloc .binding mem with
            | (false, mem) => .ok ⟨enomem, some box, mem⟩
            | (true, mem) => .ok ⟨0, some (box.link keyval), mem⟩

def ampGetBuf (box : AmpBox) (key : CString) : Except AmpError (List UInt8) :=
  match box.find key with
  | some p => .ok p.value
  | none => .error ampKeyNotFound

/-! ## Serialization -/

/-- The bindings in the order of the double loop over the buckets. -/
def AmpBox.entries (box : AmpBox) : List AmpKeyValue := Buckets.entries box.buckets

/-- The first loop: the bytes to allocate, in 32-bit arithmetic. -/
def serializedSize (box : AmpBox) : Int32 :=
  box.entries.foldl (fun size p => size + Int32.ofInt (4 + p.keySize + p.valueSize)) 2

/-- The bytes the second loop writes for one binding. -/
def encodeKeyValue (p : AmpKeyValue) : List UInt8 :=
  [0, UInt8.ofNat p.keySize.toNat] ++ p.key.bytes.take p.keySize.toNat ++
    [UInt8.ofNat (p.valueSize.toNat >>> 8), UInt8.ofNat (p.valueSize.toNat &&& 0xff)] ++
    p.value.take p.valueSize.toNat

/-- All bytes written: the bindings and the NUL-NUL terminator. -/
def serializedBytes (box : AmpBox) : List UInt8 :=
  box.entries.flatMap encodeKeyValue ++ [0, 0]

/-- A negative `size` becomes a `size_t` no allocator serves. Writing past the allocation is
undefined, so a packet that is returned has exactly the size reported with it. -/
def ampSerializeBox (mem : Mem) (box : AmpBox) :
    Except Fault (Except AmpError (List UInt8) × Mem) :=
  let size := serializedSize box
  if size = 2 then .ok (.error ampBoxEmpty, mem)
  else
    match malloc .packet mem with
    | (false, mem) => .ok (.error enomem, mem)
    | (true, mem) =>
      if size.toInt < 0 then .ok (.error enomem, mem)
      else if (serializedBytes box).length > size.toInt then .error .outOfBounds
      else .ok (.ok (serializedBytes box), mem)

/-! ## Bytes and C strings (`types.c`) -/

def ampPutBytes (mem : Mem) (box : Option AmpBox) (key : CString) (buf : List UInt8)
    (bufSize : Int) : Except Fault PutResult :=
  ampPutBuf mem box key buf bufSize

def ampGetBytes (box : AmpBox) (key : CString) : Except AmpError (List UInt8) :=
  ampGetBuf box key

def ampPutCstring (mem : Mem) (box : Option AmpBox) (key value : CString) :
    Except Fault PutResult :=
  ampPutBuf mem box key value.bytes (strlen value)

/-! ## Booleans (`types.c`) -/

/-- The text of a boolean: any `int` but 0 is true. -/
def boolText (value : Int32) : CString :=
  if value ≠ 0 then ⟨ascii "True", by decide⟩ else ⟨ascii "False", by decide⟩

def ampPutBool (mem : Mem) (box : Option AmpBox) (key : CString) (value : Int32) :
    Except Fault PutResult :=
  ampPutBuf mem box key (boolText value).bytes (strlen (boolText value))

def ampGetBool (box : AmpBox) (key : CString) : Except AmpError Int32 :=
  match ampGetBuf box key with
  | .error err => .error err
  | .ok buf =>
    if buf.length = 4 ∧ buf = ascii "True" then .ok 1
    else if buf.length = 5 ∧ buf = ascii "False" then .ok 0
    else .error ampDecodeError

end LibAmp
