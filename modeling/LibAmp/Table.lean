import LibAmp.Lib.Buckets
import LibAmp.Runtime

/-!
# The hash table of callbacks and responders (`table.c`)

`Table` is generic in its keys and values and parametrised by the caller's comparison and hash
functions. As long as the comparison decides equality, a table is a finite map under every hash
function. The `timestamp` field is only ever incremented and is left out, and a key pointer is
modelled by what it points to.
-/

namespace LibAmp

/-- `struct binding`. -/
structure Binding (K V : Type) where
  key : K
  value : V

/-- `struct Table`. -/
structure Table (K V : Type) where
  size : Nat
  cmp : K → K → Int
  hash : K → UInt32
  length : Int
  buckets : Fin size → List (Binding K V)
  size_pos : 0 < size

/-- The static array of `Table_new`. -/
def primes : List Nat :=
  [127, 127, 251, 509, 509, 1021, 2053, 4093, 8191, 16381, 32771, 65521, 2147483647]

/-- `primes[i-1]` for the first `i ≥ 1` with `primes[i] >= hint`, if the array has one. -/
def tableSize (hint : Nat) : Option Nat :=
  ((primes.drop 1).findIdx? (hint ≤ ·)).bind (primes[·]?)

theorem tableSize_pos {hint size : Nat} (h : tableSize hint = some size) : 0 < size := by
  obtain ⟨i, -, hi⟩ := Option.bind_eq_some_iff.1 h
  have all : ∀ n ∈ primes, 0 < n := by decide
  exact all _ (List.mem_of_getElem? hi)

variable {K V : Type}

def tableNew (mem : Mem) (hint : Nat) (cmp : K → K → Int) (hash : K → UInt32) :
    Except Fault (Option (Table K V) × Mem) :=
  match h : tableSize hint with
  | none => .error .outOfBounds
  | some size =>
    match malloc .table mem with
    | (false, mem) => .ok (none, mem)
    | (true, mem) =>
      .ok (some
        { size := size
          cmp := cmp
          hash := hash
          length := 0
          buckets := fun _ => []
          size_pos := tableSize_pos h }, mem)

namespace Table

def bucketOf (table : Table K V) (key : K) : Fin table.size :=
  ⟨(table.hash key).toNat % table.size, Nat.mod_lt _ table.size_pos⟩

/-- The loop that looks for the binding of `key` in its bucket. -/
def find (table : Table K V) (key : K) : Option (Binding K V) :=
  (table.buckets (table.bucketOf key)).find? fun p => table.cmp key p.key = 0

end Table

def tableGet (table : Table K V) (key : K) : Option V := (table.find key).map (·.value)

/-- A binding that is found keeps its key and gets the new value. -/
def tablePut (mem : Mem) (table : Table K V) (key : K) (value : V) :
    AmpError × Table K V × Mem :=
  let i := table.bucketOf key
  match table.find key with
  | some _ =>
    (0, { table with
      buckets := Function.update table.buckets i
        (Buckets.modifyFirst (fun p => table.cmp key p.key = 0) (fun p => { p with value := value })
          (table.buckets i)) }, mem)
  | none =>
    match malloc .tableBinding mem with
    | (false, mem) => (enomem, table, mem)
    | (true, mem) =>
      (0, { table with
        buckets := Function.update table.buckets i (⟨key, value⟩ :: table.buckets i)
        length := table.length + 1 }, mem)

def tableRemove (table : Table K V) (key : K) : Option V × Table K V :=
  let i := table.bucketOf key
  match table.find key with
  | some p =>
    (some p.value, { table with
      buckets := Function.update table.buckets i
        ((table.buckets i).eraseP fun p => table.cmp key p.key = 0)
      length := table.length - 1 })
  | none => (none, table)

def tableLength (table : Table K V) : Int := table.length

/-! ## The finite map of a table -/

namespace Table

/-- The comparison function decides equality, bindings sit in the bucket of their key, no key
occurs twice, and `length` counts the bindings. -/
structure WF (table : Table K V) : Prop where
  lawful : ∀ x y, table.cmp x y = 0 ↔ x = y
  chains : Buckets.WF (·.key) table.bucketOf table.buckets
  length_eq : table.length = (Buckets.entries table.buckets).length

variable [DecidableEq K] {table : Table K V} {key : K}

def toMap (table : Table K V) : Finmap (fun _ : K => V) :=
  Buckets.toFinmap (·.key) (·.value) table.buckets

/-- A table fresh from the allocator is empty. -/
theorem wf_of_tableNew {mem mem' : Mem} {hint : Nat} {cmp : K → K → Int} {hash : K → UInt32}
    (lawful : ∀ x y, cmp x y = 0 ↔ x = y)
    (h : tableNew mem hint cmp hash = .ok (some table, mem')) :
    table.WF ∧ table.toMap = ∅ := by
  unfold tableNew at h
  split at h
  · cases h
  next size hsize =>
  rcases hm : malloc .table mem with ⟨_ | _, mem₁⟩ <;> rw [hm] at h
  · simp at h
  · obtain ⟨rfl, -⟩ : _ = table ∧ mem₁ = mem' := by simpa using h
    exact ⟨⟨lawful, Buckets.WF.empty, by simp [Buckets.entries]⟩, Buckets.toFinmap_empty⟩

namespace WF

/-- The search condition of the loops, without the C comparison function. -/
theorem cmp_match (wf : table.WF) (key : K) :
    (fun p : Binding K V => decide (table.cmp key p.key = 0)) =
      fun p => decide (p.key = key) := by
  funext p
  simp [wf.lawful, eq_comm]

theorem find_eq (wf : table.WF) (key : K) :
    table.find key = (table.buckets (table.bucketOf key)).find? fun p => p.key = key := by
  rw [find, wf.cmp_match]

theorem get (wf : table.WF) (key : K) : tableGet table key = table.toMap.lookup key := by
  rw [tableGet, toMap, wf.chains.lookup_toFinmap, wf.find_eq]

theorem length (wf : table.WF) : tableLength table = table.toMap.keys.card := by
  rw [tableLength, wf.length_eq, toMap, wf.chains.card_keys]

/-- Storing overwrites or adds the key; it fails only without memory for a new binding. -/
theorem put (wf : table.WF) (mem : Mem) (key : K) (value : V) :
    (tablePut mem table key value).2.1.WF ∧
      ((tablePut mem table key value).1 = 0 ∧
          (tablePut mem table key value).2.1.toMap = table.toMap.insert key value ∨
        (tablePut mem table key value).1 = enomem ∧ mem 0 .tableBinding = false ∧
          (tablePut mem table key value).2.1 = table) := by
  unfold tablePut
  rcases hf : table.find key with _ | p
  · rw [wf.find_eq] at hf
    simp only [malloc]
    cases hmem : mem 0 .tableBinding with
    | false => exact ⟨wf, .inr ⟨rfl, rfl, rfl⟩⟩
    | true =>
      have count := Buckets.length_entries_update (b := table.buckets)
        (i := table.bucketOf key) (l := ⟨key, value⟩ :: table.buckets (table.bucketOf key))
      have len := wf.length_eq
      refine ⟨⟨wf.lawful, wf.chains.push (e := ⟨key, value⟩) hf, ?_⟩,
        .inl ⟨rfl, wf.chains.toFinmap_push (e := ⟨key, value⟩) hf⟩⟩
      simp only [List.length_cons] at count ⊢
      omega
  · have present := hf
    rw [wf.find_eq] at present
    have count := Buckets.length_entries_update (b := table.buckets)
      (i := table.bucketOf key) (l := Buckets.modifyFirst (fun p => p.key = key)
        (fun p => { p with value := value }) (table.buckets (table.bucketOf key)))
    have len := wf.length_eq
    simp only [wf.cmp_match]
    refine ⟨⟨wf.lawful, wf.chains.modify fun _ h => h, ?_⟩,
      .inl ⟨trivial, wf.chains.toFinmap_modify (fun _ h => ⟨h, rfl⟩) (by simp [present])⟩⟩
    simp only [Buckets.length_modifyFirst] at count ⊢
    omega

/-- Removing hands back what the key was bound to and erases it. -/
theorem remove (wf : table.WF) (key : K) :
    (tableRemove table key).1 = table.toMap.lookup key ∧
      (tableRemove table key).2.WF ∧
      (tableRemove table key).2.toMap = table.toMap.erase key := by
  have found := wf.get key
  rw [tableGet] at found
  unfold tableRemove
  rcases hf : table.find key with _ | p <;> rw [hf] at found
  · refine ⟨found, wf, ?_⟩
    apply Finmap.ext_lookup
    intro k
    by_cases hk : k = key
    · subst hk
      rw [Finmap.lookup_erase, ← found, Option.map_none]
    · rw [Finmap.lookup_erase_ne hk]
  · rw [wf.find_eq] at hf
    have hmem := List.mem_of_find?_eq_some hf
    have hk : p.key = key := by simpa using List.find?_some hf
    have shorter := List.length_eraseP_of_mem (p := fun p => decide (p.key = key)) hmem
      (by simp [hk])
    have pos := List.length_pos_of_mem hmem
    have count := Buckets.length_entries_update (b := table.buckets)
      (i := table.bucketOf key)
      (l := (table.buckets (table.bucketOf key)).eraseP fun p => p.key = key)
    have len := wf.length_eq
    simp only [wf.cmp_match]
    refine ⟨found, ⟨wf.lawful, wf.chains.erase, ?_⟩, wf.chains.toFinmap_erase⟩
    simp only
    omega

end WF

end Table

end LibAmp
