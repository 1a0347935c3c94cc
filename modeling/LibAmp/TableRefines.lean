import LibAmp.TableOnHeap
import Mathlib.Algebra.BigOperators.Fin

/-!
# The table on the heap is the table

`tableAt own p t` says that the table at `p` is `t`, whose bindings are listed with their
addresses, and that it owns the values. The keys belong to others: all that is asked is that
they can be read (`Readable`).

## Main definitions

* `LocatedTable` — a table with the addresses of its bindings and their pointers.
* `tableAt` — the blocks of a table and what its values own.

## Main results

* `tableGet_returns`, `tablePut_spec`, `tableRemove_spec`, `tableFree_spec`.
-/

namespace LibAmp.OnHeap

open Heap Linked Separation Assertion

/-- A binding: where it is, its two pointers, and what they lead to. -/
abbrev TableEntry (K V : Type) := Node (Ptr × Ptr) (Binding K V)

structure LocatedTable (K V : Type) where
  size : Nat
  length : Int
  buckets : Fin size → List (TableEntry K V)
  size_pos : 0 < size

variable {K V : Type}

namespace LocatedTable

/-- The table, addresses forgotten. -/
def toTable (fns : KeyFns K) (t : LocatedTable K V) : Table K V where
  size := t.size
  cmp := fns.cmp
  hash := fns.hash
  length := t.length
  buckets i := (t.buckets i).map (·.ghost)
  size_pos := t.size_pos

/-- The block of the table itself. -/
def struct (t : LocatedTable K V) : TableStruct where
  size := t.size
  length := t.length
  buckets i := first (t.buckets i) 0
  size_pos := t.size_pos

def bucketOf (fns : KeyFns K) (t : LocatedTable K V) (key : K) : Fin t.size :=
  t.struct.bucketOf (fns.hash key)

def entries (t : LocatedTable K V) : List (TableEntry K V) := Buckets.entries t.buckets

/-- The loops compare the key with that of the binding. -/
def isKey (fns : KeyFns K) (key : K) (e : TableEntry K V) : Bool := fns.cmp key e.ghost.key = 0

/-- The binding found for a key. -/
def find (fns : KeyFns K) (t : LocatedTable K V) (key : K) : Option (TableEntry K V) :=
  (t.buckets (t.bucketOf fns key)).find? (isKey fns key)

/-- The table with other bindings in one bucket, and another length. -/
def setBucket (t : LocatedTable K V) (i : Fin t.size) (es : List (TableEntry K V))
    (length : Int) : LocatedTable K V :=
  { t with buckets := Function.update t.buckets i es, length := length }

/-- The table with a new binding at `q`. -/
def link (fns : KeyFns K) (t : LocatedTable K V) (q key value : Ptr) (b : Binding K V) :
    LocatedTable K V :=
  t.setBucket (t.bucketOf fns b.key) (⟨q, (key, value), b⟩ :: t.buckets (t.bucketOf fns b.key))
    (t.length + 1)

/-- A binding with another value. -/
def withValue (value : Ptr) (v : V) (e : TableEntry K V) : TableEntry K V :=
  ⟨e.addr, (e.data.1, value), ⟨e.ghost.key, v⟩⟩

/-- The table with another value in the binding found for the key. -/
def replace (fns : KeyFns K) (t : LocatedTable K V) (key : K) (value : Ptr) (v : V) :
    LocatedTable K V :=
  t.setBucket (t.bucketOf fns key)
    (Buckets.modifyFirst (isKey fns key) (withValue value v) (t.buckets (t.bucketOf fns key)))
    t.length

/-- The table without the binding found for the key. -/
def unlink (fns : KeyFns K) (t : LocatedTable K V) (key : K) : LocatedTable K V :=
  t.setBucket (t.bucketOf fns key) ((t.buckets (t.bucketOf fns key)).eraseP (isKey fns key))
    (t.length - 1)

theorem struct_setBucket (t : LocatedTable K V) (i : Fin t.size) (es : List (TableEntry K V))
    (length : Int) :
    (t.setBucket i es length).struct =
      { t.struct with
        buckets := Function.update t.struct.buckets i (first es 0), length := length } := by
  have heads : (fun j => first (Function.update t.buckets i es j) 0) =
      Function.update t.struct.buckets i (first es 0) :=
    funext fun j => Function.apply_update (fun _ es => first es 0) t.buckets i es j
  exact congrArg (fun heads : Fin t.size → Ptr => TableStruct.mk t.size length heads t.size_pos)
    heads

theorem toTable_setBucket (fns : KeyFns K) (t : LocatedTable K V) (i : Fin t.size)
    (es : List (TableEntry K V)) (length : Int) :
    (t.setBucket i es length).toTable fns =
      { t.toTable fns with
        buckets := Function.update (t.toTable fns).buckets i (es.map (·.ghost))
        length := length } := by
  have buckets : (fun j => (Function.update t.buckets i es j).map (·.ghost)) =
      Function.update (t.toTable fns).buckets i (es.map (·.ghost)) :=
    funext fun j => Function.apply_update (fun _ es => List.map (·.ghost) es) t.buckets i es j
  exact congrArg (fun buckets : Fin t.size → List (Binding K V) =>
    Table.mk t.size fns.cmp fns.hash length buckets t.size_pos) buckets

/-- A bucket that starts where it did leaves the block of the table as it is. -/
theorem struct_setBucket_same (t : LocatedTable K V) (i : Fin t.size)
    {es : List (TableEntry K V)} (head : first es 0 = first (t.buckets i) 0) :
    (t.setBucket i es t.length).struct = t.struct := by
  rw [t.struct_setBucket, head]
  exact congrArg (fun heads : Fin t.size → Ptr => TableStruct.mk t.size t.length heads t.size_pos)
    (Function.update_eq_self i t.struct.buckets)

/-! ### The functions on values -/

variable {fns : KeyFns K} {t : LocatedTable K V} {key : K}

theorem find_toTable : (t.toTable fns).find key = (t.find fns key).map (·.ghost) := by
  simp only [Table.find, toTable, find, List.find?_map]
  rfl

theorem tablePut_found {e : TableEntry K V} (found : t.find fns key = some e) (mem : Mem)
    (value : Ptr) (v : V) :
    LibAmp.tablePut mem (t.toTable fns) key v =
      (0, (t.replace fns key value v).toTable fns, mem) := by
  have modified (es : List (TableEntry K V)) :
      (Buckets.modifyFirst (isKey fns key) (withValue value v) es).map (·.ghost) =
        Buckets.modifyFirst (fun p => fns.cmp key p.key = 0) (fun p => { p with value := v })
          (es.map (·.ghost)) := by
    induction es with
    | nil => rfl
    | cons e es ih =>
      by_cases hit : fns.cmp key e.ghost.key = 0
      · simp [Buckets.modifyFirst, isKey, hit, withValue]
      · simp [Buckets.modifyFirst, isKey, hit, ih]
  rw [LibAmp.tablePut, find_toTable, found, replace, toTable_setBucket, modified]
  rfl

theorem tablePut_absent (absent : t.find fns key = none) (mem : Mem) (q keyPtr value : Ptr)
    (v : V) :
    LibAmp.tablePut mem (t.toTable fns) key v =
      match malloc .tableBinding mem with
      | (false, mem) => (enomem, t.toTable fns, mem)
      | (true, mem) => (0, (t.link fns q keyPtr value ⟨key, v⟩).toTable fns, mem) := by
  rw [LibAmp.tablePut, find_toTable, absent, link, toTable_setBucket]
  rfl

theorem tableRemove_found {e : TableEntry K V} (found : t.find fns key = some e) :
    LibAmp.tableRemove (t.toTable fns) key =
      (some e.ghost.value, (t.unlink fns key).toTable fns) := by
  have erase : ((t.buckets (t.bucketOf fns key)).eraseP (isKey fns key)).map (·.ghost) =
      ((t.toTable fns).buckets (t.bucketOf fns key)).eraseP fun p => fns.cmp key p.key = 0 := by
    simp only [toTable, List.eraseP_map]
    rfl
  rw [LibAmp.tableRemove, find_toTable, found, unlink, toTable_setBucket, erase]
  rfl

theorem tableRemove_absent (absent : t.find fns key = none) :
    LibAmp.tableRemove (t.toTable fns) key = (none, t.toTable fns) := by
  rw [LibAmp.tableRemove, find_toTable, absent]
  rfl

/-- The length of a well-formed table counts its bindings. -/
theorem length_of_wf (wf : (t.toTable fns).WF) : t.length = t.entries.length := by
  have length := wf.length_eq
  have mapped : Buckets.entries (t.toTable fns).buckets = t.entries.map (·.ghost) :=
    Buckets.entries_map t.buckets (·.ghost)
  rw [mapped, List.length_map] at length
  exact length

end LocatedTable

/-! ## The blocks of a table -/

section Blocks

variable (own : Ptr → V → Assertion Block)

/-- What the values of some bindings own. -/
def valuesOf (es : List (TableEntry K V)) : Assertion Block :=
  (es.map fun e => own e.data.2 e.ghost.value).prod

/-- The bindings of one bucket and their values. -/
def tableChain (es : List (TableEntry K V)) : Assertion Block :=
  cells tableLayout es 0 * valuesOf own es

/-- The other buckets. -/
def otherChains (t : LocatedTable K V) (i : Fin t.size) : Assertion Block :=
  ∏ j ∈ Finset.univ \ {i}, tableChain own (t.buckets j)

/-- The table at `p` is `t`, and owns its values. -/
def tableAt (p : Ptr) (t : LocatedTable K V) : Assertion Block :=
  cell p (.table t.struct) * ∏ i, tableChain own (t.buckets i)

end Blocks

variable {own : Ptr → V → Assertion Block}

theorem tableLayout_build (link : Ptr) (data : Ptr × Ptr) :
    tableLayout.build link data = .tableBinding link data.1 data.2 := rfl

theorem table_struct_length (t : LocatedTable K V) : t.struct.length = t.length := rfl

@[simp] theorem valuesOf_append (es fs : List (TableEntry K V)) :
    valuesOf own (es ++ fs) = valuesOf own es * valuesOf own fs := by
  rw [valuesOf, List.map_append, List.prod_append]
  rfl

@[simp] theorem valuesOf_cons (e : TableEntry K V) (es : List (TableEntry K V)) :
    valuesOf own (e :: es) = own e.data.2 e.ghost.value * valuesOf own es := by
  rw [valuesOf, List.map_cons, List.prod_cons]
  rfl

theorem tableAt_eq (p : Ptr) (t : LocatedTable K V) (i : Fin t.size) :
    tableAt own p t =
      cell p (.table t.struct) * (tableChain own (t.buckets i) * otherChains own t i) := by
  rw [tableAt, otherChains, Finset.sdiff_singleton_eq_erase,
    Finset.mul_prod_erase Finset.univ (fun j => tableChain own (t.buckets j)) (Finset.mem_univ i)]

theorem tableAt_setBucket (p : Ptr) (t : LocatedTable K V) (i : Fin t.size)
    (es : List (TableEntry K V)) (length : Int) :
    tableAt own p (t.setBucket i es length) =
      cell p (.table (t.setBucket i es length).struct) *
        (tableChain own es * otherChains own t i) := by
  rw [tableAt]
  congr 1
  rw [otherChains,
    ← Finset.prod_update_of_mem (Finset.mem_univ i) fun j => tableChain own (t.buckets j)]
  refine Finset.prod_congr rfl fun j _ => ?_
  exact Function.apply_update (fun _ es => tableChain own es) t.buckets i es j

section Part

variable {P : Assertion Block} {p : Ptr} {t : LocatedTable K V}

theorem table_struct_dvd (part : tableAt own p t ∣ P) : cell p (.table t.struct) ∣ P :=
  (dvd_mul_right _ _).trans part

theorem table_cells_dvd (part : tableAt own p t ∣ P) (i : Fin t.size) :
    cells tableLayout (t.buckets i) 0 ∣ P := by
  refine dvd_trans ?_ part
  refine dvd_mul_of_dvd_right (dvd_trans ?_ (Finset.dvd_prod_of_mem _ (Finset.mem_univ i))) _
  exact dvd_mul_right _ _

/-- The value of a binding is part of the table. -/
theorem table_value_dvd (part : tableAt own p t ∣ P) {e : TableEntry K V} (mem : e ∈ t.entries) :
    own e.data.2 e.ghost.value ∣ P := by
  obtain ⟨i, mem⟩ := Buckets.mem_entries.1 mem
  refine dvd_trans ?_ part
  refine dvd_mul_of_dvd_right (dvd_trans ?_ (Finset.dvd_prod_of_mem _ (Finset.mem_univ i))) _
  exact (List.dvd_prod (List.mem_map.2 ⟨e, mem, rfl⟩)).mul_left _

end Part

/-! ## Searching -/

/-- The keys of the bindings can be read. -/
def Readable (fns : KeyFns K) (P : Assertion Block) (t : LocatedTable K V) : Prop :=
  ∀ e ∈ t.entries, Returns P (fns.load e.data.1) e.ghost.key

section Searching

variable {fns : KeyFns K} {P : Assertion Block} {p : Ptr} {t : LocatedTable K V} {key : K}

theorem mem_entries_of_bucket {i : Fin t.size} {e : TableEntry K V} (mem : e ∈ t.buckets i) :
    e ∈ t.entries :=
  Buckets.mem_entries.2 ⟨i, mem⟩

theorem mem_entries_of_find {e : TableEntry K V} (found : t.find fns key = some e) :
    e ∈ t.entries :=
  mem_entries_of_bucket (List.mem_of_find?_eq_some found)

theorem matchesKey_returns (reads : Readable fns P t) {e : TableEntry K V} (mem : e ∈ t.entries) :
    Returns P (matchesKey fns key e.data) (LocatedTable.isKey fns key e) :=
  (reads e mem).bind (Returns.ret P _)

theorem findBinding_returns (reads : Readable fns P t) (part : tableAt own p t ∣ P) :
    Returns P (findFrom tableLayout (matchesKey fns key)
      (t.struct.buckets (t.struct.bucketOf (fns.hash key)))) (address (t.find fns key)) :=
  findFrom_returns (t.buckets (t.bucketOf fns key)) (table_cells_dvd part _) fun _ mem =>
    matchesKey_returns reads (mem_entries_of_bucket mem)

theorem isKey_of_find {e : TableEntry K V} (found : t.find fns key = some e) :
    fns.cmp key e.ghost.key = 0 := by
  simpa [LocatedTable.isKey] using List.find?_some found

/-- What a search finds is what the table has for the key. -/
theorem tableGet_find : LibAmp.tableGet (t.toTable fns) key =
    (t.find fns key).map (·.ghost.value) := by
  rw [LibAmp.tableGet, LocatedTable.find_toTable, Option.map_map]
  rfl

/-! ### The bindings of a changed table -/

theorem mem_setBucket {i : Fin t.size} {es : List (TableEntry K V)} {length : Int}
    {e : TableEntry K V} (mem : e ∈ (t.setBucket i es length).entries) :
    e ∈ es ∨ e ∈ t.entries := by
  obtain ⟨j, mem⟩ : ∃ j, e ∈ Function.update t.buckets i es j := Buckets.mem_entries.1 mem
  by_cases hj : j = i
  · subst hj
    rw [Function.update_self] at mem
    exact .inl mem
  · rw [Function.update_of_ne hj] at mem
    exact .inr (mem_entries_of_bucket mem)

theorem mem_link {q keyPtr value : Ptr} {b : Binding K V} {e : TableEntry K V}
    (mem : e ∈ (t.link fns q keyPtr value b).entries) :
    e = ⟨q, (keyPtr, value), b⟩ ∨ e ∈ t.entries := by
  rcases mem_setBucket mem with mem | mem
  · exact (List.mem_cons.1 mem).imp_right mem_entries_of_bucket
  · exact .inr mem

theorem mem_replace {e e' : TableEntry K V} {value : Ptr} {v : V}
    (found : t.find fns key = some e) (mem : e' ∈ (t.replace fns key value v).entries) :
    e' = LocatedTable.withValue value v e ∨ e' ∈ t.entries := by
  obtain ⟨pre, post, split, -, hit, notKey⟩ := find?_split found
  rw [LocatedTable.replace, split, Buckets.modifyFirst_append notKey hit] at mem
  have bucket (e : TableEntry K V) (mem : e ∈ pre ∨ e ∈ post) : e ∈ t.entries := by
    refine mem_entries_of_bucket (i := t.bucketOf fns key) ?_
    rw [split, List.mem_append, List.mem_cons]
    exact mem.imp_right .inr
  rcases mem_setBucket mem with mem | mem
  · rw [List.mem_append, List.mem_cons] at mem
    rcases mem with mem | rfl | mem
    · exact .inr (bucket _ (.inl mem))
    · exact .inl rfl
    · exact .inr (bucket _ (.inr mem))
  · exact .inr mem

/-- A new binding is found under its key. -/
theorem find_link (q keyPtr value : Ptr) {b : Binding K V} (same : fns.cmp b.key b.key = 0) :
    (t.link fns q keyPtr value b).find fns b.key = some ⟨q, (keyPtr, value), b⟩ := by
  have hit : LocatedTable.isKey fns b.key (⟨q, (keyPtr, value), b⟩ : TableEntry K V) = true := by
    simpa [LocatedTable.isKey] using same
  have bucket : (t.link fns q keyPtr value b).buckets (t.bucketOf fns b.key) =
      ⟨q, (keyPtr, value), b⟩ :: t.buckets (t.bucketOf fns b.key) :=
    Function.update_self _ _ _
  have found := List.find?_cons_of_pos (l := t.buckets (t.bucketOf fns b.key)) hit
  rw [← bucket] at found
  exact found

/-- A binding is still found when it has another value. -/
theorem find_replace {e : TableEntry K V} (found : t.find fns key = some e) (value : Ptr) (v : V) :
    (t.replace fns key value v).find fns key = some (LocatedTable.withValue value v e) := by
  obtain ⟨pre, post, split, -, hit, notKey⟩ := find?_split found
  have bucket : (t.replace fns key value v).buckets (t.bucketOf fns key) =
      pre ++ LocatedTable.withValue value v e :: post := by
    rw [← Buckets.modifyFirst_append notKey hit, ← split]
    exact Function.update_self _ _ _
  have none : pre.find? (LocatedTable.isKey fns key) = none :=
    List.find?_eq_none.2 fun m mem => by simp [notKey m mem]
  have hit' : LocatedTable.isKey fns key (LocatedTable.withValue value v e) = true := hit
  have found' : (pre ++ LocatedTable.withValue value v e :: post).find?
      (LocatedTable.isKey fns key) = some (LocatedTable.withValue value v e) := by
    rw [List.find?_append, none, Option.none_or, List.find?_cons_of_pos hit']
  rw [← bucket] at found'
  exact found'

theorem mem_unlink {e : TableEntry K V} (mem : e ∈ (t.unlink fns key).entries) :
    e ∈ t.entries := by
  rcases mem_setBucket mem with mem | mem
  · exact mem_entries_of_bucket (List.mem_of_mem_eraseP mem)
  · exact mem

/-- The pointer that is the value of a binding, or null. -/
def valuePtr (found : Option (TableEntry K V)) : Ptr := found.elim 0 fun e => e.data.2

theorem tableGet_returns (reads : Readable fns P t) (part : tableAt own p t ∣ P) :
    Returns P (tableGet fns p key) (valuePtr (t.find fns key)) := by
  refine (Returns.readAs viewTable (table_struct_dvd part) rfl).bind ?_
  refine (findBinding_returns reads part).bind ?_
  refine Returns.ifFound (table_cells_dvd part _) (fun none => ?_) fun e found => ?_
  · rw [LocatedTable.find, none]
    exact Returns.ret P _
  · obtain ⟨link, looks⟩ := readFound (table_cells_dvd part _) found
    rw [LocatedTable.find, found]
    exact looks.bind (Returns.ret P _)

theorem bucketHead_returns (part : tableAt own p t ∣ P) (i : Fin t.size) :
    Returns P (bucketHead p i) (first (t.buckets i) 0) := by
  refine (Returns.readAs viewTable (table_struct_dvd part) rfl).bind ?_
  have inside : (i : Nat) < t.struct.size := i.isLt
  rw [dif_pos inside]
  exact Returns.ret P _

end Searching

/-! ## Storing -/

theorem setValue_spec (q link key old value : Ptr) :
    Spec (cell q (.tableBinding link key old)) (setValue q value) fun _ =>
      cell q (.tableBinding link key value) :=
  Spec.look (Returns.readAs viewTableBinding dvd_rfl rfl) (Spec.write q _ _)

section Changing

variable {fns : KeyFns K} {F : Assertion Block} {p : Ptr} {t : LocatedTable K V} {key : K}
  {v : V} {β : Type} {S : β → Assertion Block}

variable (own v) in
/-- Another value in the binding that was found. The table no longer owns the old one. -/
theorem replaceValue_spec {e : TableEntry K V} (found : t.find fns key = some e) (value : Ptr) :
    Spec (tableAt own p t * own value v) (setValue e.addr value) fun _ =>
      tableAt own p (t.replace fns key value v) * own e.data.2 e.ghost.value := by
  obtain ⟨pre, post, split, -, hit, notKey⟩ := find?_split found
  have modified : Buckets.modifyFirst (LocatedTable.isKey fns key) (LocatedTable.withValue value v)
      (t.buckets (t.bucketOf fns key)) = pre ++ LocatedTable.withValue value v e :: post := by
    rw [split, Buckets.modifyFirst_append notKey hit]
  have head : first (pre ++ LocatedTable.withValue value v e :: post) 0 =
      first (t.buckets (t.bucketOf fns key)) 0 := by
    rw [split]
    cases pre <;> rfl
  rw [LocatedTable.replace, modified, tableAt_eq p t (t.bucketOf fns key), split,
    tableAt_setBucket, t.struct_setBucket_same _ head]
  refine ((setValue_spec e.addr (first post 0) e.data.1 e.data.2 value).frame
    (cell p (.table t.struct) * (cells tableLayout pre e.addr * cells tableLayout post 0 *
      (valuesOf own pre * own e.data.2 e.ghost.value * valuesOf own post)) *
      otherChains own t (t.bucketOf fns key) * own value v)).conseq (le_of_eq ?_)
      fun _ => le_of_eq ?_
  · rw [tableChain, cells_append, first_cons, cells, valuesOf_append, valuesOf_cons,
      tableLayout_build]
    ac_rfl
  · rw [tableChain, cells_append, first_cons, cells, valuesOf_append, valuesOf_cons,
      tableLayout_build]
    dsimp only [LocatedTable.withValue]
    ac_rfl

/-- Storing: the value goes into the binding that is found, and the caller is left with what the
table owned before; or into a new one; or there is no memory for that, and the caller keeps it. -/
theorem tablePut_spec {a : BlockAllocator} {keyPtr value : Ptr}
    {k : AmpError × BlockAllocator → Program β}
    (reads : Readable fns (tableAt own p t * (own value v * F)) t)
    (readsKey : Returns (tableAt own p t * (own value v * F)) (fns.load keyPtr) key)
    (replaced : ∀ e, t.find fns key = some e →
      Spec (tableAt own p (t.replace fns key value v) * (own e.data.2 e.ghost.value * F))
        (k (0, a)) S)
    (linked : t.find fns key = none → a.serves 0 .tableBinding = true → ∀ q,
      Spec (tableAt own p (t.link fns q keyPtr value ⟨key, v⟩) * F) (k (0, a.drop 1)) S)
    (refused : t.find fns key = none → a.serves 0 .tableBinding = false →
      Spec (tableAt own p t * (own value v * F)) (k (enomem, a.drop 1)) S) :
    Spec (tableAt own p t * (own value v * F)) (tablePut fns a p keyPtr value >>= k) S := by
  have part : tableAt own p t ∣ tableAt own p t * (own value v * F) := dvd_mul_right _ _
  simp only [tablePut, bind_assoc, ite_bind, pure_bind]
  refine Spec.look readsKey ?_
  refine Spec.look (Returns.readAs viewTable (table_struct_dvd part) rfl) ?_
  refine Spec.look (findBinding_returns reads part) ?_
  refine Spec.ifFound (table_cells_dvd part (t.bucketOf fns key)) (fun absent => ?_)
    fun e found => ?_
  · refine Spec.alloc (fun served q nonNull => Spec.neg nonNull ?_) fun refuses => Spec.pos rfl ?_
    · refine Spec.step (Spec.write q _ _) rfl fun _ => ?_
      refine Spec.step (Spec.write p (.table t.struct) _)
        (F := tableChain own (t.buckets (t.bucketOf fns key)) *
          otherChains own t (t.bucketOf fns key) * (own value v * F) *
          cell q (.tableBinding (first (t.buckets (t.bucketOf fns key)) 0) keyPtr 0)) ?_
        fun _ => ?_
      · rw [tableAt_eq p t (t.bucketOf fns key)]
        ac_rfl
      refine Spec.step (setValue_spec q (first (t.buckets (t.bucketOf fns key)) 0) keyPtr 0 value)
        (F := tableChain own (t.buckets (t.bucketOf fns key)) *
          otherChains own t (t.bucketOf fns key) * (own value v * F) *
          cell p (.table (t.link fns q keyPtr value ⟨key, v⟩).struct)) ?_ fun _ => ?_
      · rw [LocatedTable.link, LocatedTable.struct_setBucket]
        ac_rfl
      refine (linked absent served q).conseq (le_of_eq ?_) fun _ => le_rfl
      rw [LocatedTable.link, tableAt_setBucket, tableChain, tableChain, cells, valuesOf_cons,
        tableLayout_build]
      dsimp only
      ac_rfl
    · exact refused absent refuses
  · rw [show t.find fns key = some e from found, address_some]
    refine Spec.step (replaceValue_spec own v found value) (F := F)
      (mul_assoc _ _ _).symm fun _ => ?_
    rw [mul_assoc]
    exact replaced e found

/-! ## Removing -/

variable (own) in
/-- `*pp = p->link` takes a binding and its value out of the table. -/
theorem storeSlot_spec (i : Fin t.size) {pre post : List (TableEntry K V)} {e : TableEntry K V}
    (split : t.buckets i = pre ++ e :: post) :
    Spec (tableAt own p t) (storeSlot p i (first post 0) (lastSlot .head pre)) fun _ =>
      tableAt own p (t.setBucket i (pre ++ post) t.length) *
        (cell e.addr (.tableBinding (first post 0) e.data.1 e.data.2) *
          own e.data.2 e.ghost.value) := by
  rcases List.eq_nil_or_concat' pre with rfl | ⟨ms, m, rfl⟩
  · have inside : (i : Nat) < t.struct.size := i.isLt
    have head : lastSlot .head ([] : List (TableEntry K V)) = .head := rfl
    rw [head, storeSlot]
    refine Spec.look (Returns.readAs viewTable (table_struct_dvd dvd_rfl) rfl) ?_
    rw [dif_pos inside, tableAt_eq p t i, split, tableAt_setBucket, t.struct_setBucket]
    refine ((Spec.write p _ _).frame _).post fun _ => le_of_eq ?_
    simp only [tableChain, cells, valuesOf_cons, List.nil_append, tableLayout_build,
      table_struct_length]
    ac_rfl
  · have last : lastSlot .head (ms ++ [m]) = .after m.addr := by simp [lastSlot]
    have head : first (ms ++ [m] ++ post) 0 = first (t.buckets i) 0 := by
      rw [split]
      cases ms <;> rfl
    rw [last, storeSlot, tableAt_eq p t i, split, tableAt_setBucket,
      t.struct_setBucket_same i head]
    refine ((setLink_spec ms m e.addr (first post 0)).frame
      (cell p (.table t.struct) * (cell e.addr (tableLayout.build (first post 0) e.data) *
        cells tableLayout post 0) * valuesOf own (ms ++ [m] ++ e :: post) *
        otherChains own t i)).conseq (le_of_eq ?_) fun _ => le_of_eq ?_
    · rw [tableChain, cells_append (ms ++ [m]), first_cons, cells]
      ac_rfl
    · rw [tableChain, cells_append (ms ++ [m]) post, valuesOf_append _ post,
        valuesOf_append _ (e :: post), valuesOf_cons, tableLayout_build]
      ac_rfl

/-- Removing: nothing is found, or the binding is freed and its value handed to the caller. -/
theorem tableRemove_spec {k : Ptr → Program β} (reads : Readable fns (tableAt own p t * F) t)
    (absent : t.find fns key = none → Spec (tableAt own p t * F) (k 0) S)
    (removed : ∀ e, t.find fns key = some e →
      Spec (tableAt own p (t.unlink fns key) * (own e.data.2 e.ghost.value * F))
        (k e.data.2) S) :
    Spec (tableAt own p t * F) (tableRemove fns p key >>= k) S := by
  have part : tableAt own p t ∣ tableAt own p t * F := dvd_mul_right _ _
  have chain := table_cells_dvd part (t.bucketOf fns key)
  have heads := bucketHead_returns part (t.bucketOf fns key)
  simp only [tableRemove, bind_assoc, ite_bind, pure_bind]
  refine Spec.look (Returns.readAs viewTable (table_struct_dvd part) rfl) ?_
  refine Spec.look (findSlot_returns (f := LocatedTable.isKey fns key) _ chain heads fun _ mem =>
    matchesKey_returns reads (mem_entries_of_bucket mem)) ?_
  refine Spec.look (loadSlot_returns _ chain heads) ?_
  refine Spec.ifFound chain absent fun e found => ?_
  obtain ⟨pre, post, split, passed, hit, notKey⟩ := find?_split found
  have node := cell_dvd_cells (L := tableLayout) pre e post 0
  rw [← split] at node
  rw [found, address_some, passed]
  refine Spec.look (Returns.readAs tableLayout.view (node.trans chain)
    (tableLayout.view_build _ _)) ?_
  refine Spec.step (storeSlot_spec own (t.bucketOf fns key) split) rfl fun _ => ?_
  refine Spec.step (Spec.free e.addr (.tableBinding (first post 0) e.data.1 e.data.2))
    (F := tableAt own p (t.setBucket (t.bucketOf fns key) (pre ++ post) t.length) *
      (own e.data.2 e.ghost.value * F)) (by ac_rfl) fun _ => ?_
  rw [one_mul]
  refine Spec.look (Returns.readAs viewTable (table_struct_dvd (dvd_mul_right _ _)) rfl) ?_
  have erased : (t.buckets (t.bucketOf fns key)).eraseP (LocatedTable.isKey fns key) =
      pre ++ post := by
    rw [split, List.eraseP_append_right _ (by simpa using notKey), List.eraseP_cons_of_pos hit]
  rw [tableAt_setBucket, LocatedTable.struct_setBucket, mul_assoc]
  refine Spec.step (Spec.write p _ _) rfl fun _ => ?_
  refine (removed e found).conseq (le_of_eq ?_) fun _ => le_rfl
  rw [LocatedTable.unlink, erased, tableAt_setBucket, LocatedTable.struct_setBucket]
  exact (mul_assoc _ _ _).symm

end Changing

/-! ## Making and freeing tables -/

variable (K V) in
def LocatedTable.new (size : Nat) (pos : 0 < size) : LocatedTable K V where
  size := size
  length := 0
  buckets _ := []
  size_pos := pos

theorem tableAt_new (p : Ptr) {size : Nat} (pos : 0 < size) :
    tableAt own p (.new K V size pos) = cell p (.table (LocatedTable.new K V size pos).struct) := by
  have empty : tableChain own ([] : List (TableEntry K V)) = 1 := by simp [tableChain, valuesOf]
  simp only [tableAt, LocatedTable.new, empty, Finset.prod_const_one, mul_one]

theorem tableSize_zero : tableSize 0 = some 127 := rfl

theorem LocatedTable.wf_new (fns : KeyFns K) (lawful : ∀ x y, fns.cmp x y = 0 ↔ x = y) {size : Nat}
    (pos : 0 < size) : ((LocatedTable.new K V size pos).toTable fns).WF :=
  ⟨lawful, Buckets.WF.empty, by simp [LocatedTable.toTable, LocatedTable.new, Buckets.entries]⟩

variable (own) in
/-- A new table, or the null pointer. -/
theorem tableNew_spec {β : Type} {P : Assertion Block} {S : β → Assertion Block}
    {a : BlockAllocator} {hint size : Nat} {k : Ptr × BlockAllocator → Program β}
    (pos : 0 < size) (known : tableSize hint = some size)
    (served : a.serves 0 .table = true → ∀ p, p ≠ 0 →
      Spec (tableAt own p (.new K V size pos) * P) (k (p, a.drop 1)) S)
    (refused : a.serves 0 .table = false → Spec P (k (0, a.drop 1)) S) :
    Spec P (tableNew a hint >>= k) S := by
  unfold tableNew
  split
  next none => simp [known] at none
  next size' known' =>
    obtain rfl : size' = size := Option.some.inj (known'.symm.trans known)
    simp only [bind_assoc, ite_bind, pure_bind]
    refine Spec.alloc (fun serves p nonNull => ?_) fun refuses => refused refuses
    refine Spec.neg nonNull ?_
    refine Spec.step (Spec.write p _ _) rfl fun _ => ?_
    have made := served serves p nonNull
    rw [tableAt_new] at made
    exact made

/-- The same on values. -/
theorem tableNew_eq (fns : KeyFns K) (mem : Mem) {hint size : Nat} (pos : 0 < size)
    (known : tableSize hint = some size) :
    LibAmp.tableNew mem hint fns.cmp fns.hash =
      .ok (if mem 0 .table then some ((LocatedTable.new K V size pos).toTable fns) else none,
        fun n => mem (n + 1)) := by
  unfold LibAmp.tableNew
  split
  next none => simp [known] at none
  next size' known' =>
    obtain rfl : size' = size := Option.some.inj (known'.symm.trans known)
    rw [malloc]
    cases mem 0 .table <;> rfl

/-- A table without bindings is only a block. -/
theorem tableAt_empty (p : Ptr) (t : LocatedTable K V) (none : t.entries = []) :
    tableAt own p t = cell p (.table t.struct) := by
  have empty (i : Fin t.size) : tableChain own (t.buckets i) = 1 := by
    have bucket : t.buckets i = [] := by
      refine List.eq_nil_iff_forall_not_mem.2 fun e mem => ?_
      have listed := mem_entries_of_bucket mem
      rw [none] at listed
      exact List.not_mem_nil listed
    simp [bucket, tableChain, valuesOf]
  simp only [tableAt, empty, Finset.prod_const_one, mul_one]

/-- Freeing a table whose length counts its bindings frees everything it owns. -/
theorem tableFree_spec (p : Ptr) (t : LocatedTable K V) (length : t.length = t.entries.length)
    (frees : ∀ q v, Spec (own q v) (free q) fun _ => 1) :
    Spec (tableAt own p t) (tableFree p) fun _ => 1 := by
  unfold tableFree
  refine Spec.look (Returns.readAs viewTable (table_struct_dvd dvd_rfl) rfl) ?_
  have freed : Spec (tableAt own p t) ((List.finRange t.size).forM fun i =>
      freeFrom tableLayout (fun binding => free binding.2) (t.struct.buckets i)) fun _ =>
        cell p (.table t.struct) := by
    have all := Spec.forM (R := cell p (.table t.struct)) (ι := Fin t.size)
      (I := fun i => tableChain own (t.buckets i)) (J := fun _ => 1) (f := fun i =>
        freeFrom tableLayout (fun binding => free binding.2) (t.struct.buckets i))
      (List.finRange t.size) fun i _ => by
        rw [mul_comm, mul_one]
        refine ((freeFrom_spec (fun binding => free binding.2)
          (fun e : TableEntry K V => own e.data.2 e.ghost.value) (t.buckets i)
          fun e _ => frees e.data.2 e.ghost.value).frame _).post fun _ => ?_
        rw [one_mul]
    rw [← Fin.prod_univ_def fun i => tableChain own (t.buckets i), List.map_const',
      List.prod_replicate, one_pow, mul_one] at all
    exact all
  split
  next pos => exact freed.bind fun _ => Spec.free p _
  next zero =>
    have none : t.entries = [] := by
      rw [← List.length_eq_zero_iff]
      rw [table_struct_length] at zero
      omega
    rw [tableAt_empty p t none]
    exact Spec.free p _

end LibAmp.OnHeap
