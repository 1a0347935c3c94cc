import LibAmp.BoxMap
import LibAmp.Table

/-!
# Which allocations an operation makes

An operation that stores something asks for memory at a known list of sites. If the allocator
serves them it does what it does with memory to spare, and otherwise it reports `ENOMEM`.

## Main definitions

* `Mem.Serves` — the allocations still to come are served, site by site.
* `putSites`, `tableSites` — the sites of `_amp_put_buf` and of `Table_put`.
-/

namespace LibAmp

/-! ## Serving a list of sites -/

namespace Mem

/-- The allocator after `n` more calls. -/
def drop (mem : Mem) (n : Nat) : Mem := fun k => mem (k + n)

/-- The next allocations are served, if they are made for these sites. -/
def Serves (mem : Mem) : List Site → Prop
  | [] => True
  | site :: sites => mem 0 site = true ∧ (mem.drop 1).Serves sites

variable {mem : Mem} {sites : List Site}

@[simp] theorem drop_zero (mem : Mem) : mem.drop 0 = mem := rfl

@[simp] theorem drop_drop (mem : Mem) (m n : Nat) : (mem.drop m).drop n = mem.drop (m + n) := by
  funext k
  simp only [drop]
  congr 1
  omega

@[simp] theorem serves_plenty (sites : List Site) : plenty.Serves sites := by
  induction sites with
  | nil => trivial
  | cons site sites ih => exact ⟨rfl, ih⟩

theorem serves_append {sites' : List Site} :
    mem.Serves (sites ++ sites') ↔ mem.Serves sites ∧ (mem.drop sites.length).Serves sites' := by
  induction sites generalizing mem with
  | nil => simp [Serves]
  | cons site sites ih =>
    simp only [List.cons_append, Serves, ih, drop_drop, List.length_cons, and_assoc]
    rw [Nat.add_comm]

end Mem

theorem malloc_eq (site : Site) (mem : Mem) : malloc site mem = (mem 0 site, mem.drop 1) := rfl

/-! ## Storing a key -/

/-- The sites of `_amp_put_buf`: a binding only for a key that is new. -/
def putSites (m : BoxMap) (key : CString) : List Site :=
  .keyval :: if key ∈ m then [] else [.binding]

section Storing

variable {box : AmpBox} (wf : box.WF) {key : CString} {value : List UInt8}
  (storable : Storable key value) {mem : Mem}
include wf storable

/-- When its allocations are served, storing gives what it gives with memory to spare. -/
theorem AmpBox.WF.putBytes_served (served : mem.Serves (putSites box.toMap key)) :
    ampPutBytes mem (some box) key value value.length =
      .ok ⟨0, some (box.add key value), mem.drop (putSites box.toMap key).length⟩ := by
  obtain ⟨pos, le, valLe⟩ := storable
  have okKey : ¬ (strlen key > maxKeyLength ∨ strlen key = 0) := by omega
  have okVal : ¬ ((value.length : Int) > maxValueLength ∨ (value.length : Int) < 0) := by omega
  have keyval : mem 0 .keyval = true := served.1
  rcases hf : box.find key with _ | p
  · have absent : key ∉ box.toMap := by simp [wf.mem_toMap, hf]
    have binding : mem.drop 1 0 .binding = true := by
      rw [putSites, if_neg absent] at served
      exact served.2.1
    simp only [AmpBox.add, ampPutBytes, ampPutBuf, okKey, okVal, ↓reduceDIte, malloc_eq, keyval,
      binding, gt_iff_lt, lt_self_iff_false, hf, putSites, absent, ↓reduceIte]
    rfl
  · have present : key ∈ box.toMap := by simp [wf.mem_toMap, hf]
    simp only [AmpBox.add, ampPutBytes, ampPutBuf, okKey, okVal, ↓reduceDIte, malloc_eq, keyval,
      gt_iff_lt, lt_self_iff_false, hf, putSites, present, ↓reduceIte]
    rfl

theorem AmpBox.WF.putBytes_unserved (refused : ¬ mem.Serves (putSites box.toMap key)) :
    ∃ mem', ampPutBytes mem (some box) key value value.length = .ok ⟨enomem, some box, mem'⟩ := by
  obtain ⟨pos, le, valLe⟩ := storable
  have okKey : ¬ (strlen key > maxKeyLength ∨ strlen key = 0) := by omega
  have okVal : ¬ ((value.length : Int) > maxValueLength ∨ (value.length : Int) < 0) := by omega
  simp only [ampPutBytes, ampPutBuf, okKey, okVal, ↓reduceDIte, malloc_eq]
  cases keyval : mem 0 .keyval with
  | false => exact ⟨_, rfl⟩
  | true =>
    have absent : key ∉ box.toMap := by
      intro present
      rw [putSites, if_pos present] at refused
      exact refused ⟨keyval, trivial⟩
    have binding : mem.drop 1 0 .binding = false := by
      rw [putSites, if_neg absent] at refused
      by_contra served
      exact refused ⟨keyval, by simpa using served, trivial⟩
    have notFound : box.find key = none := by simpa [wf.mem_toMap] using absent
    simp only [gt_iff_lt, lt_self_iff_false, ↓reduceDIte, notFound, binding]
    exact ⟨_, rfl⟩

end Storing

/-- A value that is too long is refused before anything is allocated. -/
theorem ampPutBytes_long {box : AmpBox} {key : CString} {value : List UInt8} {mem : Mem}
    (okKey : ¬ (strlen key > maxKeyLength ∨ strlen key = 0))
    (long : maxValueLength < value.length) :
    ampPutBytes mem (some box) key value value.length = .ok ⟨ampBadValSize, some box, mem⟩ := by
  have size : (value.length : Int) > maxValueLength ∨ (value.length : Int) < 0 := by omega
  simp only [ampPutBytes, ampPutBuf, okKey, size, ↓reduceDIte]

/-! ## Storing in a table -/

/-- The sites of `Table_put`. -/
def tableSites {K V : Type} (table : Table K V) (key : K) : List Site :=
  if (table.find key).isSome then [] else [.tableBinding]

section Tables

variable {K V : Type} {table : Table K V} {key : K} {value : V} {mem : Mem}

theorem tablePut_served (served : mem.Serves (tableSites table key)) :
    tablePut mem table key value =
      (0, (tablePut plenty table key value).2.1, mem.drop (tableSites table key).length) := by
  unfold tableSites at served
  rcases hf : table.find key with _ | p
  · rw [hf] at served
    have binding : mem 0 .tableBinding = true := served.1
    simp only [tablePut, hf, malloc_eq, binding, tableSites]
    rfl
  · simp only [tablePut, hf, tableSites]
    rfl

theorem tablePut_unserved (refused : ¬ mem.Serves (tableSites table key)) :
    tablePut mem table key value = (enomem, table, mem.drop 1) := by
  unfold tableSites at refused
  rcases hf : table.find key with _ | p <;> rw [hf] at refused
  · have binding : mem 0 .tableBinding = false := by
      by_contra served
      exact refused ⟨by simpa using served, trivial⟩
    simp only [tablePut, hf, malloc_eq, binding]
  · exact absurd trivial refused

end Tables

end LibAmp
