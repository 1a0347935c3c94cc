import LibAmp.BoxOnHeap
import Mathlib.Algebra.BigOperators.Fin

/-!
# The box on the heap is the box

`boxAt p b` says that the box at `p` is `b`, whose bindings are listed with their addresses. On
such a box every function of `box.c` runs without a fault and leaves a box that, addresses
forgotten, is the one the function on values gives, and the bindings of other keys stay where
they are.

## Main definitions

* `LocatedBox` — a box with the addresses of its bindings and key/value pairs.
* `boxAt` — the blocks of a box.

## Main results

* `ampDelKey_spec`, `ampPutBuf_spec`, `ampGetBuf_returns`, … — one for each function.
* `ampFreeBox_spec` — freeing a box frees all its blocks.
-/

namespace LibAmp.OnHeap

open Heap Linked Separation Assertion

/-- A binding: where it is, where its key/value pair is, and the pair. -/
abbrev Entry := Node Ptr AmpKeyValue

structure LocatedBox where
  size : Nat
  hash : CString → UInt32
  length : Int
  buckets : Fin size → List Entry
  size_pos : 0 < size

namespace LocatedBox

/-- The box, addresses forgotten. -/
def toBox (b : LocatedBox) : AmpBox where
  size := b.size
  hash := b.hash
  length := b.length
  buckets i := (b.buckets i).map (·.ghost)
  size_pos := b.size_pos

/-- The block of the box itself. -/
def struct (b : LocatedBox) : BoxStruct where
  size := b.size
  hash := b.hash
  length := b.length
  buckets i := first (b.buckets i) 0
  size_pos := b.size_pos

def bucketOf (b : LocatedBox) (key : CString) : Fin b.size := b.toBox.bucketOf key

def entries (b : LocatedBox) : List Entry := Buckets.entries b.buckets

/-- The box with other bindings in one bucket, and another length. -/
def setBucket (b : LocatedBox) (i : Fin b.size) (es : List Entry) (length : Int) : LocatedBox :=
  { b with buckets := Function.update b.buckets i es, length := length }

theorem struct_setBucket (b : LocatedBox) (i : Fin b.size) (es : List Entry) (length : Int) :
    (b.setBucket i es length).struct =
      { b.struct with
        buckets := Function.update b.struct.buckets i (first es 0), length := length } := by
  have heads : (fun j => first (Function.update b.buckets i es j) 0) =
      Function.update b.struct.buckets i (first es 0) :=
    funext fun j => Function.apply_update (fun _ es => first es 0) b.buckets i es j
  exact congrArg (fun heads : Fin b.size → Ptr =>
    BoxStruct.mk b.size b.hash length heads b.size_pos) heads

theorem toBox_setBucket (b : LocatedBox) (i : Fin b.size) (es : List Entry) (length : Int) :
    (b.setBucket i es length).toBox =
      { b.toBox with
        buckets := Function.update b.toBox.buckets i (es.map (·.ghost)), length := length } := by
  have buckets : (fun j => (Function.update b.buckets i es j).map (·.ghost)) =
      Function.update b.toBox.buckets i (es.map (·.ghost)) :=
    funext fun j => Function.apply_update (fun _ es => List.map (·.ghost) es) b.buckets i es j
  exact congrArg (fun buckets : Fin b.size → List AmpKeyValue =>
    AmpBox.mk b.size b.hash length buckets b.size_pos) buckets

/-- A bucket that starts where it did leaves the block of the box as it is. -/
theorem struct_setBucket_same (b : LocatedBox) (i : Fin b.size) {es : List Entry}
    (head : first es 0 = first (b.buckets i) 0) :
    (b.setBucket i es b.length).struct = b.struct := by
  have heads : (fun j => first (Function.update b.buckets i es j) 0) =
      fun j => first (b.buckets j) 0 := by
    funext j
    by_cases hj : j = i
    · subst hj
      rw [Function.update_self, head]
    · rw [Function.update_of_ne hj]
  exact congrArg (fun heads : Fin b.size → Ptr =>
    BoxStruct.mk b.size b.hash b.length heads b.size_pos) heads

end LocatedBox

/-! ## The blocks of a box -/

/-- The key/value pairs of some bindings. -/
def keyvals (es : List Entry) : Assertion Block :=
  (es.map fun e => cell e.data (.keyval e.ghost)).prod

/-- The blocks of one bucket. -/
def chain (es : List Entry) : Assertion Block := cells bindingLayout es 0 * keyvals es

/-- The blocks of the buckets but one. -/
def others (b : LocatedBox) (i : Fin b.size) : Assertion Block :=
  ∏ j ∈ Finset.univ \ {i}, chain (b.buckets j)

/-- The box at `p` is `b`. -/
def boxAt (p : Ptr) (b : LocatedBox) : Assertion Block :=
  cell p (.box b.struct) * ∏ i, chain (b.buckets i)

theorem bindingLayout_build (link keyval : Ptr) :
    bindingLayout.build link keyval = .binding link keyval := rfl

theorem struct_length (b : LocatedBox) : b.struct.length = b.length := rfl

@[simp] theorem keyvals_append (es fs : List Entry) :
    keyvals (es ++ fs) = keyvals es * keyvals fs := by
  rw [keyvals, List.map_append, List.prod_append]
  rfl

@[simp] theorem keyvals_cons (e : Entry) (es : List Entry) :
    keyvals (e :: es) = cell e.data (.keyval e.ghost) * keyvals es := by
  rw [keyvals, List.map_cons, List.prod_cons]
  rfl

theorem boxAt_eq (p : Ptr) (b : LocatedBox) (i : Fin b.size) :
    boxAt p b = cell p (.box b.struct) * (chain (b.buckets i) * others b i) := by
  rw [boxAt, others, Finset.sdiff_singleton_eq_erase,
    Finset.mul_prod_erase Finset.univ (fun j => chain (b.buckets j)) (Finset.mem_univ i)]

theorem boxAt_setBucket (p : Ptr) (b : LocatedBox) (i : Fin b.size) (es : List Entry)
    (length : Int) :
    boxAt p (b.setBucket i es length) =
      cell p (.box (b.setBucket i es length).struct) * (chain es * others b i) := by
  rw [boxAt]
  congr 1
  rw [others, ← Finset.prod_update_of_mem (Finset.mem_univ i) fun j => chain (b.buckets j)]
  refine Finset.prod_congr rfl fun j _ => ?_
  exact Function.apply_update (fun _ es => chain es) b.buckets i es j

theorem struct_dvd (p : Ptr) (b : LocatedBox) : cell p (.box b.struct) ∣ boxAt p b :=
  dvd_mul_right _ _

theorem bucket_dvd (p : Ptr) (b : LocatedBox) (i : Fin b.size) :
    chain (b.buckets i) ∣ boxAt p b :=
  (Finset.dvd_prod_of_mem _ (Finset.mem_univ i)).mul_left _

/-! ## Searching a bucket -/

/-- The loops compare the key with that of the binding. -/
def isKey (key : CString) (e : Entry) : Bool := cmpString key e.ghost.key = 0

section Search

variable {P : Assertion Block} {key : CString} {es : List Entry}

theorem keyval_dvd (own : chain es ∣ P) {e : Entry} (mem : e ∈ es) :
    cell e.data (.keyval e.ghost) ∣ P := by
  refine dvd_trans (dvd_trans ?_ (dvd_mul_left (keyvals es) (cells bindingLayout es 0))) own
  exact List.dvd_prod (List.mem_map.2 ⟨e, mem, rfl⟩)

theorem sameKey_returns (own : chain es ∣ P) {e : Entry} (mem : e ∈ es) :
    Returns P (sameKey key e.data) (isKey key e) :=
  (Returns.readAs viewKeyval (keyval_dvd own mem) rfl).bind (Returns.ret P _)

theorem find_returns (es : List Entry) (own : chain es ∣ P) :
    Returns P (findFrom bindingLayout (sameKey key) (first es 0))
      (address (es.find? (isKey key))) :=
  findFrom_returns es ((dvd_mul_right _ _).trans own) fun _ mem => sameKey_returns own mem

end Search

/-- What an operation on `key` that returns `ret` leaves alone: every binding, with its addresses,
but for that of the key if it succeeds. -/
def Keeps (b b' : LocatedBox) (key : CString) (ret : Int) : Prop :=
  ∀ e ∈ b.entries, (ret = 0 → e.ghost.key ≠ key) → e ∈ b'.entries

theorem Keeps.refl (b : LocatedBox) (key : CString) (ret : Int) : Keeps b b key ret :=
  fun _ mem _ => mem

theorem keeps_setBucket (b : LocatedBox) (i : Fin b.size) (es : List Entry) (length : Int)
    (key : CString) (kept : ∀ e ∈ b.buckets i, e.ghost.key ≠ key → e ∈ es) :
    Keeps b (b.setBucket i es length) key 0 := by
  intro e mem other
  obtain ⟨j, mem⟩ := Buckets.mem_entries.1 mem
  refine Buckets.mem_entries.2 ⟨j, ?_⟩
  by_cases hj : j = i
  · subst hj
    simpa [LocatedBox.setBucket] using kept e mem (other rfl)
  · simpa [LocatedBox.setBucket, Function.update_of_ne hj] using mem

/-! ## Reading -/

section Reading

variable {p : Ptr} {b : LocatedBox} {key : CString}

theorem find_toBox (b : LocatedBox) (key : CString) :
    b.toBox.find key = ((b.buckets (b.bucketOf key)).find? (isKey key)).map (·.ghost) := by
  simp only [AmpBox.find, LocatedBox.toBox, LocatedBox.bucketOf, List.find?_map]
  rfl

theorem ampNumKeys_returns : Returns (boxAt p b) (ampNumKeys p) (LibAmp.ampNumKeys b.toBox) :=
  (Returns.readAs viewBox (struct_dvd p b) rfl).bind (Returns.ret _ _)

theorem chain_cells_dvd {es : List Entry} {P : Assertion Block} (own : chain es ∣ P) :
    cells bindingLayout es 0 ∣ P :=
  (dvd_mul_right _ _).trans own

theorem ampHasKey_returns :
    Returns (boxAt p b) (ampHasKey p key) (LibAmp.ampHasKey b.toBox key) := by
  have own := bucket_dvd p b (b.bucketOf key)
  let f (e : Entry) : Bool := (strlen key : Int) = e.ghost.keySize ∧ cmpString key e.ghost.key = 0
  have same : (b.toBox.buckets (b.toBox.bucketOf key)).find?
      (fun p => (strlen key : Int) = p.keySize ∧ cmpString key p.key = 0) =
        ((b.buckets (b.bucketOf key)).find? f).map (·.ghost) := by
    simp only [LocatedBox.toBox, List.find?_map]
    rfl
  refine (Returns.readAs viewBox (struct_dvd p b) rfl).bind ?_
  refine (findFrom_returns (f := f) (b.buckets (b.bucketOf key)) (chain_cells_dvd own)
    fun e mem => ?_).bind ?_
  · exact (Returns.readAs viewKeyval (keyval_dvd own mem) rfl).bind (Returns.ret _ _)
  · simp only [LibAmp.ampHasKey, same]
    cases found : (b.buckets (b.bucketOf key)).find? f with
    | none => exact Returns.ret _ _
    | some e =>
      obtain ⟨pre, post, split, -⟩ := find?_split found
      have part := cell_dvd_cells (L := bindingLayout) pre e post 0
      rw [← split] at part
      refine Returns.nonNull (part.trans (chain_cells_dvd own)) fun nonNull => ?_
      rw [address_some, if_neg nonNull]
      exact Returns.ret _ _

/-- What `_amp_get_buf` stores: where the pair is, and the size of its value. -/
def LocatedBox.view (b : LocatedBox) (key : CString) : Except AmpError (Ptr × Int) :=
  match (b.buckets (b.bucketOf key)).find? (isKey key) with
  | none => .error ampKeyNotFound
  | some e => .ok (e.data, e.ghost.valueSize)

theorem ampGetBuf_returns : Returns (boxAt p b) (ampGetBuf p key) (b.view key) := by
  have own := bucket_dvd p b (b.bucketOf key)
  refine (Returns.readAs viewBox (struct_dvd p b) rfl).bind ?_
  refine (find_returns (b.buckets (b.bucketOf key)) own).bind ?_
  refine Returns.ifFound (chain_cells_dvd own) (fun none => ?_) fun e found => ?_
  · rw [LocatedBox.view, none]
    exact Returns.ret _ _
  · obtain ⟨link, reads⟩ := readFound (chain_cells_dvd own) found
    rw [LocatedBox.view, found]
    refine reads.bind ?_
    refine (Returns.readAs viewKeyval
      (keyval_dvd own (List.mem_of_find?_eq_some found)) rfl).bind ?_
    exact Returns.ret _ _

/-- The pointer handed out leads to the value the map has for the key. -/
theorem view_entry {buf : Ptr} {size : Int} (view : b.view key = .ok (buf, size)) :
    ∃ e ∈ b.entries, e.ghost.key = key ∧ buf = e.data ∧ size = e.ghost.valueSize ∧
      LibAmp.ampGetBuf b.toBox key = .ok e.ghost.value := by
  rw [LibAmp.ampGetBuf, find_toBox]
  unfold LocatedBox.view at view
  split at view
  · cases view
  next e found =>
    obtain ⟨rfl, rfl⟩ : e.data = buf ∧ e.ghost.valueSize = size := by simpa using view
    have mem := List.mem_of_find?_eq_some found
    have same := List.find?_some found
    simp only [isKey, cmpString, strcmp_eq_zero, decide_eq_true_eq] at same
    exact ⟨e, Buckets.mem_entries.2 ⟨_, mem⟩, same.symm, rfl, rfl, by rw [found]; rfl⟩

theorem view_error {err : AmpError} (view : b.view key = .error err) :
    LibAmp.ampGetBuf b.toBox key = .error err := by
  rw [LibAmp.ampGetBuf, find_toBox]
  unfold LocatedBox.view at view
  split at view
  next none =>
    rw [none]
    exact congrArg Except.error (by simpa using view)
  · cases view

theorem readBuf_returns {e : Entry} (mem : e ∈ b.entries) :
    Returns (boxAt p b) (readBuf e.data e.ghost.valueSize) e.ghost.value := by
  obtain ⟨i, mem⟩ := Buckets.mem_entries.1 mem
  refine (Returns.readAs viewKeyval (keyval_dvd (bucket_dvd p b i) mem) rfl).bind ?_
  refine Returns.neg (by rw [e.ghost.valueSize_eq]; omega) ?_
  rw [e.ghost.valueSize_eq, Int.toNat_natCast, List.take_length]
  exact Returns.ret _ _

end Reading

/-! ## Deleting -/

section Deleting

variable {p : Ptr} {b : LocatedBox} {key : CString}

/-- The box without the binding found for the key. -/
def LocatedBox.unlink (b : LocatedBox) (key : CString) : LocatedBox :=
  b.setBucket (b.bucketOf key) ((b.buckets (b.bucketOf key)).eraseP (isKey key)) (b.length - 1)

theorem toBox_unlink (b : LocatedBox) (key : CString) :
    (b.unlink key).toBox = b.toBox.unlink key := by
  have erase : ((b.buckets (b.bucketOf key)).eraseP (isKey key)).map (·.ghost) =
      (b.toBox.buckets (b.bucketOf key)).eraseP fun p => cmpString key p.key = 0 := by
    simp only [LocatedBox.toBox, List.eraseP_map]
    rfl
  rw [LocatedBox.unlink, LocatedBox.toBox_setBucket, erase]
  rfl

theorem keeps_unlink (b : LocatedBox) (key : CString) : Keeps b (b.unlink key) key 0 := by
  refine keeps_setBucket b _ _ _ key fun e mem other => ?_
  refine (List.mem_eraseP_of_neg ?_).2 mem
  simp [isKey, cmpString, other.symm]

/-- Unlinking a binding takes it and its key/value pair out of the box. -/
theorem unlink_spec (i : Fin b.size) {pre post : List Entry} {e : Entry}
    (split : b.buckets i = pre ++ e :: post) :
    Spec (boxAt p b) (unlink p b.struct i (lastAddr 0 pre) (first post 0)) fun _ =>
      boxAt p (b.setBucket i (pre ++ post) b.length) *
        (cell e.addr (.binding (first post 0) e.data) * cell e.data (.keyval e.ghost)) := by
  rcases List.eq_nil_or_concat' pre with rfl | ⟨ms, m, rfl⟩
  · refine Spec.neg (by simp [lastAddr]) ?_
    rw [boxAt_eq p b i, split, boxAt_setBucket, b.struct_setBucket]
    refine ((Spec.write p _ _).frame _).post fun _ => le_of_eq ?_
    simp only [chain, cells, keyvals_cons, List.nil_append, bindingLayout_build, struct_length]
    ac_rfl
  · have last : lastAddr 0 (ms ++ [m]) = m.addr := by simp [lastAddr]
    have part := cell_dvd_cells (L := bindingLayout) ms m (e :: post) 0
    rw [List.append_cons ms m, ← split] at part
    rw [last]
    refine Spec.nonNull (part.trans (chain_cells_dvd (bucket_dvd p b i))) fun nonNull => ?_
    refine Spec.pos nonNull ?_
    have head : first (ms ++ [m] ++ post) 0 = first (b.buckets i) 0 := by
      rw [split]
      cases ms <;> rfl
    rw [boxAt_eq p b i, split, boxAt_setBucket, b.struct_setBucket_same i head]
    refine ((setLink_spec ms m e.addr (first post 0)).frame
      (cell p (.box b.struct) * (cell e.addr (.binding (first post 0) e.data) *
        cells bindingLayout post 0) * keyvals (ms ++ [m] ++ e :: post) * others b i)).conseq
      (le_of_eq ?_) fun _ => le_of_eq ?_
    · rw [chain, cells_append (ms ++ [m]), first_cons, cells, bindingLayout_build]
      ac_rfl
    · rw [chain, cells_append (ms ++ [m]) post, keyvals_append _ post, keyvals_append _ (e :: post),
        keyvals_cons]
      ac_rfl

theorem ampDelKey_spec :
    Spec (boxAt p b) (ampDelKey p key) fun r => ⨆ b' : LocatedBox,
      fact ((b'.toBox, r) = LibAmp.ampDelKey b.toBox key ∧ Keeps b b' key r) * boxAt p b' := by
  have own := bucket_dvd p b (b.bucketOf key)
  refine Spec.look (Returns.readAs viewBox (struct_dvd p b) rfl) ?_
  refine Spec.look (findPrev_returns (f := isKey key) (b.buckets (b.bucketOf key))
    (chain_cells_dvd own) fun e mem => sameKey_returns own mem) ?_
  refine Spec.ifFound (chain_cells_dvd own) (fun none => ?_) fun e found => ?_
  · refine Spec.done _ (le_iSup_of_le b (le_fact_mul ⟨?_, Keeps.refl b key _⟩ le_rfl))
    rw [LibAmp.ampDelKey, find_toBox, none]
    rfl
  · obtain ⟨pre, post, split, passed, hit, notKey⟩ := find?_split found
    rw [passed, found, address_some]
    have part := cell_dvd_cells (L := bindingLayout) pre e post 0
    rw [← split] at part
    refine Spec.look (Returns.readAs bindingLayout.view (part.trans (chain_cells_dvd own))
      (bindingLayout.view_build _ _)) ?_
    refine (unlink_spec _ split).bind fun _ => ?_
    refine Spec.step (Spec.free e.data (.keyval e.ghost))
      (F := boxAt p (b.setBucket (b.bucketOf key) (pre ++ post) b.length) *
        cell e.addr (.binding (first post 0) e.data)) (by ac_rfl) fun _ => ?_
    refine Spec.step (Spec.free e.addr (.binding (first post 0) e.data))
      (F := boxAt p (b.setBucket (b.bucketOf key) (pre ++ post) b.length)) ?_ fun _ => ?_
    · rw [one_mul, mul_comm]
    rw [one_mul]
    refine Spec.look (Returns.readAs viewBox (struct_dvd _ _) rfl) ?_
    have erased : (b.buckets (b.bucketOf key)).eraseP (isKey key) = pre ++ post := by
      rw [split, List.eraseP_append_right _ (by simpa using notKey), List.eraseP_cons_of_pos hit]
    rw [boxAt_setBucket, LocatedBox.struct_setBucket]
    refine Spec.step (Spec.write p _ _) rfl fun _ => ?_
    refine Spec.done _ (le_iSup_of_le (b.unlink key) (le_fact_mul ⟨?_, keeps_unlink b key⟩
      (le_of_eq ?_)))
    · rw [LibAmp.ampDelKey, find_toBox, found, toBox_unlink]
      rfl
    · rw [LocatedBox.unlink, erased, boxAt_setBucket, LocatedBox.struct_setBucket]

end Deleting

/-! ## Storing -/

section Storing

variable {p : Ptr} {b : LocatedBox}

/-- The end of `_amp_put_buf` on values. -/
def stored (mem : Mem) (box : AmpBox) (kv : AmpKeyValue) : PutResult :=
  match box.find kv.key with
  | some _ => ⟨0, some (box.replace kv), mem⟩
  | none =>
    match malloc .binding mem with
    | (false, mem) => ⟨enomem, some box, mem⟩
    | (true, mem) => ⟨0, some (box.link kv), mem⟩

/-- The box with a new binding at `q`. -/
def LocatedBox.link (b : LocatedBox) (q keyval : Ptr) (kv : AmpKeyValue) : LocatedBox :=
  b.setBucket (b.bucketOf kv.key) (⟨q, keyval, kv⟩ :: b.buckets (b.bucketOf kv.key)) (b.length + 1)

/-- The box with another key/value pair in the binding found for its key. -/
def LocatedBox.replace (b : LocatedBox) (keyval : Ptr) (kv : AmpKeyValue) : LocatedBox :=
  b.setBucket (b.bucketOf kv.key)
    (Buckets.modifyFirst (isKey kv.key) (fun e => ⟨e.addr, keyval, kv⟩)
      (b.buckets (b.bucketOf kv.key))) b.length

theorem toBox_link (b : LocatedBox) (q keyval : Ptr) (kv : AmpKeyValue) :
    (b.link q keyval kv).toBox = b.toBox.link kv := by
  rw [LocatedBox.link, LocatedBox.toBox_setBucket]
  rfl

theorem toBox_replace (b : LocatedBox) (keyval : Ptr) (kv : AmpKeyValue) :
    (b.replace keyval kv).toBox = b.toBox.replace kv := by
  have modified (es : List Entry) :
      (Buckets.modifyFirst (isKey kv.key) (fun e => ⟨e.addr, keyval, kv⟩) es).map (·.ghost) =
        Buckets.modifyFirst (fun p => cmpString kv.key p.key = 0) (fun _ => kv)
          (es.map (·.ghost)) := by
    induction es with
    | nil => rfl
    | cons e es ih =>
      by_cases hit : isKey kv.key e
      · have same : cmpString kv.key e.ghost.key = 0 := by simpa [isKey] using hit
        simp [Buckets.modifyFirst, hit, same]
      · have other : cmpString kv.key e.ghost.key ≠ 0 := by simpa [isKey] using hit
        simp [Buckets.modifyFirst, hit, other, ih]
  rw [LocatedBox.replace, LocatedBox.toBox_setBucket, modified]
  rfl

theorem keeps_link (b : LocatedBox) (q keyval : Ptr) (kv : AmpKeyValue) :
    Keeps b (b.link q keyval kv) kv.key 0 :=
  keeps_setBucket b _ _ _ _ fun _ mem _ => List.mem_cons_of_mem _ mem

theorem keeps_replace (b : LocatedBox) (keyval : Ptr) (kv : AmpKeyValue) :
    Keeps b (b.replace keyval kv) kv.key 0 := by
  refine keeps_setBucket b _ _ _ _ fun e mem other => ?_
  generalize b.buckets (b.bucketOf kv.key) = es at mem
  induction es with
  | nil => cases mem
  | cons e' es ih =>
    by_cases hit : isKey kv.key e'
    · have same : kv.key = e'.ghost.key := by simpa [isKey, cmpString] using hit
      rcases List.mem_cons.1 mem with rfl | mem
      · exact absurd same.symm other
      · simpa [Buckets.modifyFirst, hit] using .inr mem
    · rcases List.mem_cons.1 mem with rfl | mem
      · simp [Buckets.modifyFirst, hit]
      · simpa [Buckets.modifyFirst, hit] using .inr (ih mem)

theorem setKeyval_spec (q link old keyval : Ptr) :
    Spec (cell q (.binding link old)) (setKeyval q keyval) fun _ =>
      cell q (.binding link keyval) :=
  Spec.look (Returns.readAs viewBinding dvd_rfl rfl) (Spec.write q _ _)

theorem storeKeyval_spec (a : BlockAllocator) (keyval : Ptr) (kv : AmpKeyValue) :
    Spec (boxAt p b * cell keyval (.keyval kv)) (storeKeyval a p kv.key keyval) fun r =>
      ⨆ b' : LocatedBox,
        fact (stored a.serves b.toBox kv = ⟨r.1, some b'.toBox, r.2.serves⟩ ∧
          Keeps b b' kv.key r.1) * boxAt p b' := by
  have own := (bucket_dvd p b (b.bucketOf kv.key)).mul_right (cell keyval (.keyval kv))
  refine Spec.look (Returns.readAs viewBox ((struct_dvd p b).mul_right _) rfl) ?_
  refine Spec.look (find_returns (b.buckets (b.bucketOf kv.key)) own) ?_
  refine Spec.ifFound (chain_cells_dvd own) (fun none => ?_) fun e found => ?_
  · have absent : b.toBox.find kv.key = Option.none := by rw [find_toBox, none]; rfl
    refine Spec.alloc (fun served q nonNull => Spec.neg nonNull ?_) fun refused => Spec.pos rfl ?_
    · refine Spec.step (Spec.write q _ _) rfl fun _ => ?_
      refine Spec.step (Spec.write p (.box b.struct) _)
        (F := chain (b.buckets (b.bucketOf kv.key)) * others b (b.bucketOf kv.key) *
          cell keyval (.keyval kv) *
          cell q (.binding (first (b.buckets (b.bucketOf kv.key)) 0) 0)) ?_ fun _ => ?_
      · rw [boxAt_eq p b (b.bucketOf kv.key)]
        ac_rfl
      refine Spec.step (setKeyval_spec q (first (b.buckets (b.bucketOf kv.key)) 0) 0 keyval)
        (F := chain (b.buckets (b.bucketOf kv.key)) * others b (b.bucketOf kv.key) *
          cell keyval (.keyval kv) * cell p (.box (b.link q keyval kv).struct)) ?_ fun _ => ?_
      · rw [LocatedBox.link, LocatedBox.struct_setBucket]
        ac_rfl
      refine Spec.done _ (le_iSup_of_le (b.link q keyval kv) (le_fact_mul ⟨?_, keeps_link _ _ _ _⟩
        (le_of_eq ?_)))
      · simp only [stored, absent, malloc, served, toBox_link]
        rfl
      · rw [LocatedBox.link, boxAt_setBucket, chain, chain, cells, keyvals_cons,
          bindingLayout_build]
        dsimp only
        ac_rfl
    · refine Spec.step (Spec.free keyval _) (mul_comm _ _) fun _ => ?_
      rw [one_mul]
      refine Spec.done _ (le_iSup_of_le b (le_fact_mul ⟨?_, Keeps.refl b _ _⟩ le_rfl))
      simp only [stored, absent, malloc, refused]
      rfl
  · have present : b.toBox.find kv.key = some e.ghost := by rw [find_toBox, found]; rfl
    obtain ⟨pre, post, split, -, hit, notKey⟩ := find?_split found
    have part := cell_dvd_cells (L := bindingLayout) pre e post 0
    rw [← split] at part
    have modified : Buckets.modifyFirst (isKey kv.key) (fun e => ⟨e.addr, keyval, kv⟩)
        (b.buckets (b.bucketOf kv.key)) = pre ++ ⟨e.addr, keyval, kv⟩ :: post := by
      rw [split, Buckets.modifyFirst_append notKey hit]
    have head : first (pre ++ (⟨e.addr, keyval, kv⟩ : Entry) :: post) 0 =
        first (b.buckets (b.bucketOf kv.key)) 0 := by
      rw [split]
      cases pre <;> rfl
    rw [found, address_some]
    refine Spec.look (Returns.readAs bindingLayout.view (part.trans (chain_cells_dvd own))
      (bindingLayout.view_build _ _)) ?_
    obtain ⟨rest, parts⟩ : ∃ rest, rest = cell p (.box b.struct) *
        (cells bindingLayout pre e.addr * cells bindingLayout post 0 * keyvals pre *
          keyvals post) * others b (b.bucketOf kv.key) * cell keyval (.keyval kv) := ⟨_, rfl⟩
    refine Spec.step (Spec.free e.data (.keyval e.ghost))
      (F := rest * cell e.addr (.binding (first post 0) e.data)) ?_ fun _ => ?_
    · rw [boxAt_eq p b (b.bucketOf kv.key), split, chain, cells_append, first_cons, cells,
        keyvals_append, keyvals_cons, bindingLayout_build, parts]
      ac_rfl
    rw [one_mul]
    refine Spec.step (setKeyval_spec e.addr (first post 0) e.data keyval) (F := rest)
      (mul_comm _ _) fun _ => ?_
    refine Spec.done _ (le_iSup_of_le (b.replace keyval kv) (le_fact_mul ⟨?_, keeps_replace _ _ _⟩
      (le_of_eq ?_)))
    · simp only [stored, present, toBox_replace]
    · rw [LocatedBox.replace, modified, boxAt_setBucket, b.struct_setBucket_same _ head, chain,
        cells_append, first_cons, cells, keyvals_append, keyvals_cons, bindingLayout_build, parts]
      dsimp only
      ac_rfl

theorem ampPutBuf_spec (a : BlockAllocator) (key : CString) {buf : List UInt8} {bufSize : Int}
    (room : bufSize ≤ buf.length) :
    Spec (boxAt p b) (ampPutBuf a p key buf bufSize) fun r => ⨆ b' : LocatedBox,
      fact (LibAmp.ampPutBuf a.serves (some b.toBox) key buf bufSize =
          .ok ⟨r.1, some b'.toBox, r.2.serves⟩ ∧ Keeps b b' key r.1) * boxAt p b' := by
  unfold ampPutBuf LibAmp.ampPutBuf
  by_cases hkey : strlen key > maxKeyLength ∨ strlen key = 0
  · simp only [hkey, ↓reduceDIte]
    exact Spec.done _ (le_iSup_of_le b (le_fact_mul ⟨rfl, Keeps.refl b key _⟩ le_rfl))
  by_cases hval : bufSize > maxValueLength ∨ bufSize < 0
  · simp only [hkey, hval, ↓reduceDIte]
    exact Spec.done _ (le_iSup_of_le b (le_fact_mul ⟨rfl, Keeps.refl b key _⟩ le_rfl))
  have fits : ¬ bufSize > buf.length := by omega
  simp only [hkey, hval, fits, ↓reduceDIte]
  refine Spec.alloc (fun served keyval nonNull => Spec.neg nonNull ?_)
    fun refused => Spec.pos rfl ?_
  · refine Spec.step (Spec.write keyval _ _) rfl fun _ => ?_
    rw [mul_comm]
    refine (storeKeyval_spec (a.drop 1) keyval _).post fun r => iSup_mono fun b' =>
      mul_mono (fact_mono ?_) le_rfl
    rintro ⟨result, keeps⟩
    refine ⟨?_, keeps⟩
    rw [← result]
    simp only [stored, newKeyval, malloc, served, Allocator.serves_drop]
    cases b.toBox.find key with
    | some _ => rfl
    | none => cases a.serves (0 + 1) .binding <;> rfl
  · refine Spec.done _ (le_iSup_of_le b (le_fact_mul ⟨?_, Keeps.refl b key _⟩ le_rfl))
    simp only [malloc, refused]
    rfl

end Storing

/-! ## Making and freeing boxes -/

def LocatedBox.new (hash : CString → UInt32) : LocatedBox where
  size := 127
  hash := hash
  length := 0
  buckets _ := []
  size_pos := buckets_pos

theorem boxAt_new (p : Ptr) (hash : CString → UInt32) :
    boxAt p (.new hash) = cell p (.box (LocatedBox.new hash).struct) := by
  have empty : chain [] = 1 := by simp [chain, keyvals]
  simp only [boxAt, LocatedBox.new, empty, Finset.prod_const_one, mul_one]

/-- A new box, or the null pointer. -/
theorem newBox_spec {α : Type} {P : Assertion Block} {S : α → Assertion Block}
    {hash : CString → UInt32} {a : BlockAllocator} {site : Site}
    {k : Ptr × BlockAllocator → Program α}
    (served : a.serves 0 site = true → ∀ p, p ≠ 0 →
      Spec (boxAt p (.new hash) * P) (k (p, a.drop 1)) S)
    (refused : a.serves 0 site = false → Spec P (k (0, a.drop 1)) S) :
    Spec P (newBox hash a site >>= k) S := by
  rw [newBox, bind_assoc]
  refine Spec.alloc (fun serves p nonNull => ?_) fun refuses => refused refuses
  dsimp only
  rw [if_neg nonNull, bind_assoc]
  refine Spec.step (Spec.write p _ _) rfl fun _ => ?_
  have made := served serves p nonNull
  rw [boxAt_new] at made
  exact made

/-- The loop over the buckets. -/
theorem freeChain_spec (es : List Entry) :
    Spec (chain es) (freeFrom bindingLayout (fun keyval => free keyval) (first es 0)) fun _ => 1 :=
  freeFrom_spec _ _ es fun e _ => Spec.free e.data (Block.keyval e.ghost)

theorem ampFreeBox_spec (p : Ptr) (b : LocatedBox) :
    Spec (boxAt p b) (ampFreeBox p) fun _ => 1 := by
  refine Spec.nonNull (struct_dvd p b) fun nonNull => Spec.neg nonNull ?_
  refine Spec.look (Returns.readAs viewBox (struct_dvd p b) rfl) ?_
  have freed := Spec.forM (R := cell p (.box b.struct)) (ι := Fin b.size)
    (I := fun i => chain (b.buckets i)) (J := fun _ => 1) (f := fun i =>
      freeFrom bindingLayout (fun keyval => free keyval) (b.struct.buckets i))
    (List.finRange b.size) fun i _ => by
      rw [mul_comm, mul_one]
      refine ((freeChain_spec (b.buckets i)).frame _).post fun _ => ?_
      rw [one_mul]
  rw [← Fin.prod_univ_def fun i => chain (b.buckets i), List.map_const', List.prod_replicate,
    one_pow, mul_one] at freed
  exact freed.bind fun _ => Spec.free p _

end LibAmp.OnHeap
