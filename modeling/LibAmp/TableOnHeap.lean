import LibAmp.Blocks

/-!
# The hash table on the heap (`table.c`)

The functions of `table.c` with their pointers, allocations and calls of `free`. A key that is
stored is a pointer, and read through it whenever a bucket is searched; a key that is only looked
up is given by its value. `LibAmp.Table` gives the same functions on values.
-/

namespace LibAmp.OnHeap

open Heap Linked

/-- What a table is used with: how a key is read through its pointer, and the functions given to
`Table_new`. -/
structure KeyFns (K : Type) where
  load : Ptr → Program K
  cmp : K → K → Int
  hash : K → UInt32

variable {K : Type} (fns : KeyFns K)

/-- `table->hash(key) % table->size`. -/
def TableStruct.bucketOf (t : TableStruct) (hash : UInt32) : Fin t.size :=
  ⟨hash.toNat % t.size, Nat.mod_lt _ t.size_pos⟩

def tableNew (a : BlockAllocator) (hint : Nat) : Program (Ptr × BlockAllocator) :=
  match h : tableSize hint with
  | none => fail .undefined
  | some size => do
    let (table, a) ← alloc a .table .raw
    if table = 0 then return (0, a)
    else
      write table (.table
        { size := size
          length := 0
          buckets := fun _ => 0
          size_pos := tableSize_pos h })
      return (table, a)

/-- `table->cmp(key, p->key) == 0`. -/
def matchesKey (key : K) (binding : Ptr × Ptr) : Program Bool := do
  let k ← fns.load binding.1
  return fns.cmp key k = 0

def tableGet (table : Ptr) (key : K) : Program Ptr := do
  let t ← readAs viewTable table
  let p ← findFrom tableLayout (matchesKey fns key) (t.buckets (t.bucketOf (fns.hash key)))
  if p = 0 then return 0
  else
    let (_, _, value) ← readNode tableLayout p
    return value

/-- `p->value = value`. -/
def setValue (p value : Ptr) : Program Unit := do
  let (link, key, _) ← readNode tableLayout p
  write p (.tableBinding link key value)

def tablePut (a : BlockAllocator) (table key value : Ptr) :
    Program (AmpError × BlockAllocator) := do
  let k ← fns.load key
  let t ← readAs viewTable table
  let i := t.bucketOf (fns.hash k)
  let p ← findFrom tableLayout (matchesKey fns k) (t.buckets i)
  if p = 0 then
    let (p, a) ← alloc a .tableBinding .raw
    if p = 0 then return (enomem, a)
    else
      write p (.tableBinding (t.buckets i) key 0)
      write table (.table
        { t with buckets := Function.update t.buckets i p, length := t.length + 1 })
      setValue p value
      return (0, a)
  else
    setValue p value
    return (0, a)

/-- `table->buckets[i]`. -/
def bucketHead (table : Ptr) (i : Nat) : Program Ptr := do
  let t ← readAs viewTable table
  if h : i < t.size then return t.buckets ⟨i, h⟩ else fail .undefined

/-- `*pp = link`. -/
def storeSlot (table : Ptr) (i : Nat) (link : Ptr) : Slot → Program Unit
  | .head => do
    let t ← readAs viewTable table
    if h : i < t.size then
      write table (.table { t with buckets := Function.update t.buckets ⟨i, h⟩ link })
    else fail .undefined
  | .after q => setLink tableLayout q link

def tableRemove (table : Ptr) (key : K) : Program Ptr := do
  let t ← readAs viewTable table
  let i := t.bucketOf (fns.hash key)
  let pp ← findSlot tableLayout (bucketHead table i) (matchesKey fns key)
  let p ← load tableLayout (bucketHead table i) pp
  if p = 0 then return 0
  else
    let (link, _, value) ← readNode tableLayout p
    storeSlot table i link pp
    free p
    let t ← readAs viewTable table
    write table (.table { t with length := t.length - 1 })
    return value

/-- The values are freed too. An empty table is freed without looking at its buckets. -/
def tableFree (table : Ptr) : Program Unit := do
  let t ← readAs viewTable table
  if t.length > 0 then
    (List.finRange t.size).forM fun i =>
      freeFrom tableLayout (fun binding => free binding.2) (t.buckets i)
  free table

def tableLength (table : Ptr) : Program Int := do
  return (← readAs viewTable table).length

end LibAmp.OnHeap
