import LibAmp.Blocks
import LibAmp.BoxHistory

/-!
# The box on the heap (`box.c`)

The functions of `box.c` with their pointers, allocations and calls of `free`. `LibAmp.Box` gives
the same functions on values; `LibAmp.BoxRefines` shows that they agree and that every block is
freed once.
-/

namespace LibAmp.OnHeap

open Heap Linked

theorem buckets_pos : 0 < 127 := by decide

/-- `amp_new_box`, for any hash function. A null pointer if there is no memory. -/
def newBox (hash : CString → UInt32) (a : BlockAllocator) (site : Site) :
    Program (Ptr × BlockAllocator) := do
  let (box, a) ← alloc a site .raw
  if box = 0 then return (0, a)
  else
    write box (.box
      { size := 127
        hash := hash
        length := 0
        buckets := fun _ => 0
        size_pos := buckets_pos })
    return (box, a)

def ampNewBox (a : BlockAllocator) (site : Site) : Program (Ptr × BlockAllocator) :=
  newBox hashString a site

/-- The loop over the buckets frees what `box->buckets[i]` leads to. -/
def ampFreeBox (box : Ptr) : Program Unit := do
  if box = 0 then return ()
  else
    let b ← readAs viewBox box
    (List.finRange b.size).forM fun i =>
      freeFrom bindingLayout (fun keyval => free keyval) (b.buckets i)
    free box

def ampNumKeys (box : Ptr) : Program Int := do
  return (← readAs viewBox box).length

/-- `box->cmp(key, p->keyval->key) == 0`. -/
def sameKey (key : CString) (keyval : Ptr) : Program Bool := do
  let kv ← readAs viewKeyval keyval
  return cmpString key kv.key = 0

/-- The binding before takes the link over, or the bucket if there is none. -/
def unlink (box : Ptr) (b : BoxStruct) (i : Fin b.size) (prev link : Ptr) : Program Unit :=
  if prev ≠ 0 then setLink bindingLayout prev link
  else write box (.box { b with buckets := Function.update b.buckets i link })

def ampDelKey (box : Ptr) (key : CString) : Program Int := do
  let b ← readAs viewBox box
  let i := b.bucketOf key
  let (prev, p) ← findPrev bindingLayout (sameKey key) (b.buckets i)
  if p = 0 then return -1
  else
    let (link, keyval) ← readNode bindingLayout p
    unlink box b i prev link
    free keyval
    free p
    let b ← readAs viewBox box
    write box (.box { b with length := b.length - 1 })
    return 0

def ampHasKey (box : Ptr) (key : CString) : Program Int := do
  let keySize : Int := strlen key
  let b ← readAs viewBox box
  let p ← findFrom bindingLayout (fun keyval => do
    let kv ← readAs viewKeyval keyval
    return keySize = kv.keySize ∧ cmpString key kv.key = 0) (b.buckets (b.bucketOf key))
  return if p = 0 then 0 else 1

/-- The end of `_amp_put_buf`: `p->keyval = keyval`. -/
def setKeyval (p keyval : Ptr) : Program Unit := do
  let (link, _) ← readNode bindingLayout p
  write p (.binding link keyval)

/-- The store of `_amp_put_buf`, once the key and the value are copied into `keyval`. -/
def storeKeyval (a : BlockAllocator) (box : Ptr) (key : CString) (keyval : Ptr) :
    Program (AmpError × BlockAllocator) := do
  let b ← readAs viewBox box
  let i := b.bucketOf key
  let p ← findFrom bindingLayout (sameKey key) (b.buckets i)
  if p = 0 then
    let (p, a) ← alloc a .binding .raw
    if p = 0 then
      free keyval
      return (enomem, a)
    else
      write p (.binding (b.buckets i) 0)
      write box (.box
        { b with buckets := Function.update b.buckets i p, length := b.length + 1 })
      setKeyval p keyval
      return (0, a)
  else
    let (_, old) ← readNode bindingLayout p
    free old
    setKeyval p keyval
    return (0, a)

section Keyval

variable {key : CString} {buf : List UInt8} {bufSize : Int}

/-! What the checks of `_amp_put_buf` leave of its arguments. -/

theorem keySize_cast (key : CString) : (strlen key : Int) = strlen key := rfl

theorem key_pos (hkey : ¬ (strlen key > maxKeyLength ∨ strlen key = 0)) : 0 < strlen key := by
  omega

theorem key_le (hkey : ¬ (strlen key > maxKeyLength ∨ strlen key = 0)) :
    strlen key ≤ maxKeyLength := by
  omega

theorem valueSize_eq (hval : ¬ (bufSize > maxValueLength ∨ bufSize < 0))
    (hbuf : ¬ bufSize > buf.length) : bufSize = (buf.take bufSize.toNat).length := by
  rw [List.length_take]
  omega

theorem value_le (hval : ¬ (bufSize > maxValueLength ∨ bufSize < 0))
    (hbuf : ¬ bufSize > buf.length) : (buf.take bufSize.toNat).length ≤ maxValueLength := by
  rw [List.length_take]
  omega

/-- The key/value pair that `_amp_put_buf` fills in. -/
def newKeyval (hkey : ¬ (strlen key > maxKeyLength ∨ strlen key = 0))
    (hval : ¬ (bufSize > maxValueLength ∨ bufSize < 0)) (hbuf : ¬ bufSize > buf.length) :
    AmpKeyValue where
  key := key
  keySize := strlen key
  value := buf.take bufSize.toNat
  valueSize := bufSize
  keySize_eq := keySize_cast key
  key_pos := key_pos hkey
  key_le := key_le hkey
  valueSize_eq := valueSize_eq hval hbuf
  value_le := value_le hval hbuf

end Keyval

def ampPutBuf (a : BlockAllocator) (box : Ptr) (key : CString) (buf : List UInt8) (bufSize : Int) :
    Program (AmpError × BlockAllocator) := do
  let keySize := strlen key
  if hkey : keySize > maxKeyLength ∨ keySize = 0 then return (ampBadKeySize, a)
  else if hval : bufSize > maxValueLength ∨ bufSize < 0 then return (ampBadValSize, a)
  else
    let (keyval, a) ← alloc a .keyval .raw
    if keyval = 0 then return (enomem, a)
    else if hbuf : bufSize > buf.length then fail .undefined
    else
      write keyval (.keyval (newKeyval hkey hval hbuf))
      storeKeyval a box key keyval

/-- The pointer handed out points into the key/value pair: it is given by the pair's address. -/
def ampGetBuf (box : Ptr) (key : CString) : Program (Except AmpError (Ptr × Int)) := do
  let b ← readAs viewBox box
  let p ← findFrom bindingLayout (sameKey key) (b.buckets (b.bucketOf key))
  if p = 0 then return .error ampKeyNotFound
  else
    let (_, keyval) ← readNode bindingLayout p
    let kv ← readAs viewKeyval keyval
    return .ok (keyval, kv.valueSize)

/-- Reading `size` bytes through a pointer that `_amp_get_buf` has handed out. -/
def readBuf (buf : Ptr) (size : Int) : Program (List UInt8) := do
  let kv ← readAs viewKeyval buf
  if size > kv.value.length then fail .undefined
  else return kv.value.take size.toNat

end LibAmp.OnHeap
