import LibAmp.Lib.Heap
import Mathlib.Algebra.BigOperators.Group.Finset.Piecewise
import Mathlib.Algebra.BigOperators.Group.List.Basic
import Mathlib.Order.CompletePartialOrder

/-!
# Separation logic for programs over a heap

Assertions speak of the part of the heap they own. They form a commutative monoid, in which
`P * Q` splits that part in two and `1` owns nothing, so that rearranging is `ac_rfl`, iterated
conjunction is `∏`, and owning a block among others is divisibility. `P ≤ Q` is entailment.

## Main definitions

* `Assertion` — a predicate on the part of the heap it owns, with `cell` and `fact`.
* `Returns` — a program that only looks, and what it returns.
* `Spec` — total correctness: no fault, and everything not owned stays as it is.
-/

namespace Separation

open Heap WhileLoop

variable {V α β σ κ : Type}

/-- A predicate on the part of the heap it owns. -/
def Assertion (V : Type) := Blocks V → Prop

namespace Assertion

instance : CompleteLattice (Assertion V) := inferInstanceAs (CompleteLattice (Blocks V → Prop))

theorem ext {P Q : Assertion V} (h : ∀ b, P b ↔ Q b) : P = Q :=
  funext fun b => propext (h b)

/-- The heap splits into a part for each side. -/
instance : Mul (Assertion V) :=
  ⟨fun P Q h => ∃ h₁ h₂, h₁.Disjoint h₂ ∧ h = h₁ ∪ h₂ ∧ P h₁ ∧ Q h₂⟩

/-- Nothing is owned. -/
instance : One (Assertion V) := ⟨fun h => h = ∅⟩

variable {P Q F : Assertion V} {h : Blocks V}

theorem one_apply : (1 : Assertion V) h ↔ h = ∅ := Iff.rfl

theorem mul_comm' (P Q : Assertion V) : P * Q = Q * P := by
  apply ext
  intro h
  constructor <;>
  · rintro ⟨h₁, h₂, disjoint, rfl, left, right⟩
    exact ⟨h₂, h₁, disjoint.symm, Finmap.union_comm_of_disjoint disjoint, right, left⟩

theorem one_mul' (P : Assertion V) : 1 * P = P := by
  apply ext
  intro h
  constructor
  · rintro ⟨h₁, h₂, -, rfl, empty, right⟩
    rw [one_apply.1 empty, Finmap.empty_union]
    exact right
  · intro own
    exact ⟨∅, h, Finmap.disjoint_empty h, Finmap.empty_union.symm, rfl, own⟩

theorem mul_assoc' (P Q R : Assertion V) : P * Q * R = P * (Q * R) := by
  apply ext
  intro h
  constructor
  · rintro ⟨_, h₃, disjoint, rfl, ⟨h₁, h₂, disjoint', rfl, hP, hQ⟩, hR⟩
    obtain ⟨left, right⟩ := (Finmap.disjoint_union_left h₁ h₂ h₃).1 disjoint
    exact ⟨h₁, h₂ ∪ h₃, (Finmap.disjoint_union_right h₁ h₂ h₃).2 ⟨disjoint', left⟩,
      Finmap.union_assoc, hP, h₂, h₃, right, rfl, hQ, hR⟩
  · rintro ⟨h₁, _, disjoint, rfl, hP, h₂, h₃, disjoint', rfl, hQ, hR⟩
    obtain ⟨left, right⟩ := (Finmap.disjoint_union_right h₁ h₂ h₃).1 disjoint
    exact ⟨h₁ ∪ h₂, h₃, (Finmap.disjoint_union_left h₁ h₂ h₃).2 ⟨right, disjoint'⟩,
      Finmap.union_assoc.symm, ⟨h₁, h₂, left, rfl, hP, hQ⟩, hR⟩

instance : CommMonoid (Assertion V) where
  mul_assoc := mul_assoc'
  one_mul := one_mul'
  mul_one P := (mul_comm' P 1).trans (one_mul' P)
  mul_comm := mul_comm'

/-- Entailment holds inside a larger heap. -/
theorem mul_mono {P' Q' : Assertion V} (left : P ≤ P') (right : Q ≤ Q') : P * Q ≤ P' * Q' := by
  rintro h ⟨h₁, h₂, disjoint, rfl, hP, hQ⟩
  exact ⟨h₁, h₂, disjoint, rfl, left h₁ hP, right h₂ hQ⟩

theorem prod_mono {ι : Type} {s : Finset ι} {I J : ι → Assertion V} (le : ∀ i ∈ s, I i ≤ J i) :
    ∏ i ∈ s, I i ≤ ∏ i ∈ s, J i := by
  classical
  induction s using Finset.induction_on with
  | empty => exact le_rfl
  | insert i s absent ih =>
    rw [Finset.prod_insert absent, Finset.prod_insert absent]
    exact mul_mono (le i (Finset.mem_insert_self i s))
      (ih fun j hj => le j (Finset.mem_insert_of_mem hj))

theorem iSup_iff {ι : Type} {P : ι → Assertion V} : (⨆ i, P i) h ↔ ∃ i, P i h := by
  have apply := iSup_apply (f := fun i => (P i : Blocks V → Prop)) (a := h)
  exact (iff_of_eq apply).trans (by rw [iSup_Prop_eq])

theorem iSup_mul {ι : Type} (I : ι → Assertion V) (Q : Assertion V) :
    (⨆ i, I i) * Q = ⨆ i, I i * Q := by
  apply ext
  intro h
  rw [iSup_iff]
  constructor
  · rintro ⟨h₁, h₂, disjoint, rfl, own, rest⟩
    obtain ⟨i, own⟩ := iSup_iff.1 own
    exact ⟨i, h₁, h₂, disjoint, rfl, own, rest⟩
  · rintro ⟨i, h₁, h₂, disjoint, rfl, own, rest⟩
    exact ⟨h₁, h₂, disjoint, rfl, iSup_iff.2 ⟨i, own⟩, rest⟩

/-! ### Facts and cells -/

/-- A fact about no block at all. -/
def fact (φ : Prop) : Assertion V := fun h => φ ∧ h = ∅

/-- One block, at `p`, with contents `v`. -/
def cell (p : Ptr) (v : V) : Assertion V := fun h => p ≠ 0 ∧ h = Finmap.singleton p v

/-- These blocks and no others. -/
def only (blocks : Blocks V) : Assertion V := fun h => h = blocks

theorem fact_mul {φ : Prop} : ((fact φ : Assertion V) * P) h ↔ φ ∧ P h := by
  constructor
  · rintro ⟨h₁, h₂, -, rfl, ⟨holds, rfl⟩, own⟩
    rw [Finmap.empty_union]
    exact ⟨holds, own⟩
  · rintro ⟨holds, own⟩
    exact ⟨∅, h, Finmap.disjoint_empty h, Finmap.empty_union.symm, ⟨holds, rfl⟩, own⟩

@[simp] theorem fact_true : fact True = (1 : Assertion V) :=
  ext fun _ => ⟨fun own => own.2, fun own => ⟨trivial, own⟩⟩

theorem fact_of {φ : Prop} (holds : φ) : fact φ = (1 : Assertion V) := by
  rw [eq_true holds, fact_true]

theorem le_fact_mul {φ : Prop} (holds : φ) (le : P ≤ Q) : P ≤ fact φ * Q := by
  rwa [fact_of holds, one_mul]

theorem fact_mul_le {φ : Prop} (le : φ → P ≤ Q) : fact φ * P ≤ Q := by
  intro h own
  obtain ⟨holds, own⟩ := fact_mul.1 own
  exact le holds h own

theorem fact_mono {φ ψ : Prop} (imp : φ → ψ) : (fact φ : Assertion V) ≤ fact ψ :=
  fun _ own => ⟨imp own.1, own.2⟩

theorem erase_insert {p : Ptr} {v : V} (absent : p ∉ h) : (h.insert p v).erase p = h := by
  apply Finmap.ext_lookup
  intro q
  by_cases hq : q = p
  · subst hq
    rw [Finmap.lookup_erase, Finmap.lookup_eq_none.2 absent]
  · rw [Finmap.lookup_erase_ne hq, Finmap.lookup_insert_of_ne h hq]

/-- To own a cell and more is to have the block, and the rest in the heap without it. -/
theorem cell_mul {p : Ptr} {v : V} :
    (cell p v * P) h ↔ p ≠ 0 ∧ h.lookup p = some v ∧ P (h.erase p) := by
  constructor
  · rintro ⟨_, h₂, disjoint, rfl, ⟨nonNull, rfl⟩, own⟩
    have single : p ∈ (Finmap.singleton p v : Blocks V) := (Finmap.mem_singleton p p v).2 rfl
    have absent : p ∉ h₂ := disjoint p single
    have rest : (Finmap.singleton p v ∪ h₂).erase p = h₂ := by
      apply Finmap.ext_lookup
      intro q
      by_cases hq : q = p
      · subst hq
        rw [Finmap.lookup_erase, Finmap.lookup_eq_none.2 absent]
      · rw [Finmap.lookup_erase_ne hq,
          Finmap.lookup_union_right (by rwa [Finmap.mem_singleton])]
    refine ⟨nonNull, ?_, rest.symm ▸ own⟩
    rw [Finmap.lookup_union_left single, Finmap.lookup_singleton_eq]
  · rintro ⟨nonNull, found, own⟩
    refine ⟨Finmap.singleton p v, h.erase p, ?_, ?_, ⟨nonNull, rfl⟩, own⟩
    · intro q hq
      rw [Finmap.mem_singleton] at hq
      exact hq ▸ Finmap.notMem_erase_self
    · have disjoint : (h.erase p).Disjoint (Finmap.singleton p v) := by
        intro q hq single
        rw [Finmap.mem_singleton] at single
        exact Finmap.notMem_erase_self (single ▸ hq)
      rw [← Finmap.union_comm_of_disjoint disjoint, Finmap.erase_union_singleton p v h found]

/-- A pointer that is null, or owns what it leads to. -/
def nullable (own : Ptr → α → Assertion V) (p : Ptr) : Option α → Assertion V
  | none => fact (p = 0)
  | some x => own p x

/-- An error that leaves `rest`, or a pointer that owns what it leads to. -/
def settled {ε : Type} (own : Ptr → α → Assertion V) (rest : Assertion V) :
    Except ε Ptr → Except ε α → Assertion V
  | .error e, .error e' => fact (e = e') * rest
  | .ok p, .ok x => own p x
  | _, _ => fact False

theorem settled_map {ε : Type} {own : Ptr → β → Assertion V} {rest : Assertion V}
    (f : α → β) (res : Except ε Ptr) (v : Except ε α) :
    settled own rest res (v.map f) = settled (fun p x => own p (f x)) rest res v := by
  rcases res with e | p <;> rcases v with e' | x <;> rfl

/-- To own something, wherever it is. -/
def somewhere (own : Ptr → α → Assertion V) (x : α) : Assertion V := ⨆ p, own p x

/-- To own some things, wherever they are. -/
def scattered (own : Ptr → α → Assertion V) (xs : List α) : Assertion V :=
  (xs.map (somewhere own)).prod

/-- What stands for some values, one for each. -/
def aligned (own : β → α → Assertion V) : List β → List α → Assertion V
  | [], [] => 1
  | p :: ps, x :: xs => own p x * aligned own ps xs
  | _, _ => fact False

theorem le_somewhere (own : Ptr → α → Assertion V) (p : Ptr) (x : α) :
    own p x ≤ somewhere own x :=
  le_iSup (fun p => own p x) p

@[simp] theorem scattered_nil (own : Ptr → α → Assertion V) : scattered own [] = 1 := rfl

@[simp] theorem scattered_cons (own : Ptr → α → Assertion V) (x : α) (xs : List α) :
    scattered own (x :: xs) = somewhere own x * scattered own xs := by
  rw [scattered, List.map_cons, List.prod_cons]
  rfl

theorem scattered_append (own : Ptr → α → Assertion V) (xs ys : List α) :
    scattered own (xs ++ ys) = scattered own xs * scattered own ys := by
  rw [scattered, List.map_append, List.prod_append]
  rfl

/-- An assertion under which `p` is not null. -/
def NonNull (p : Ptr) (P : Assertion V) : Prop := ∀ h, P h → p ≠ 0

theorem nonNull_cell (p : Ptr) (v : V) : NonNull p (cell p v) := fun _ own => own.1

theorem NonNull.mul_right {p : Ptr} (nonNull : NonNull p P) (Q : Assertion V) :
    NonNull p (P * Q) := by
  rintro _ ⟨h₁, _, -, -, own, -⟩
  exact nonNull h₁ own

theorem NonNull.mul_left {p : Ptr} (nonNull : NonNull p P) (Q : Assertion V) :
    NonNull p (Q * P) :=
  mul_comm P Q ▸ nonNull.mul_right Q

theorem NonNull.le {p : Ptr} (nonNull : NonNull p P) : P ≤ fact (p ≠ 0) * P :=
  fun h own => fact_mul.2 ⟨nonNull h own, own⟩

theorem NonNull.iSup {ι : Type} {p : Ptr} {I : ι → Assertion V} (nonNull : ∀ i, NonNull p (I i)) :
    NonNull p (⨆ i, I i) := by
  intro h own
  obtain ⟨i, own⟩ := iSup_iff.1 own
  exact nonNull i h own

/-- An assertion that says which blocks are owned and what is in them. -/
def Exact (P : Assertion V) : Prop := ∀ h h', P h → P h' → h = h'

theorem exact_only (blocks : Blocks V) : Exact (only blocks) :=
  fun _ _ own own' => own.trans own'.symm

theorem Exact.cell_mul (exact : Exact P) (p : Ptr) (v : V) : Exact (cell p v * P) := by
  intro h h' own own'
  obtain ⟨-, found, own⟩ := Assertion.cell_mul.1 own
  obtain ⟨-, found', own'⟩ := Assertion.cell_mul.1 own'
  have rest := exact _ _ own own'
  apply Finmap.ext_lookup
  intro q
  by_cases hq : q = p
  · rw [hq, found, found']
  · rw [← Finmap.lookup_erase_ne hq, rest, Finmap.lookup_erase_ne hq]

/-- An assertion that owns `n` blocks or more. -/
def AtLeast (n : Nat) (P : Assertion V) : Prop := ∀ h, P h → n ≤ h.keys.card

theorem atLeast_zero (P : Assertion V) : AtLeast 0 P := fun _ _ => Nat.zero_le _

theorem AtLeast.cell_mul {n : Nat} (more : AtLeast n P) (p : Ptr) (v : V) :
    AtLeast (n + 1) (cell p v * P) := by
  intro h own
  obtain ⟨-, found, own⟩ := Assertion.cell_mul.1 own
  have present : p ∈ h.keys := Finmap.mem_keys.2 (Finmap.mem_of_lookup_eq_some found)
  have rest := more _ own
  have keys : (h.erase p).keys = h.keys.erase p := by
    ext q
    simp [Finmap.mem_keys]
  rw [keys, Finset.card_erase_of_mem present] at rest
  have := Finset.card_pos.2 ⟨p, present⟩
  omega

end Assertion

open Assertion

/-! ## Programs that only look -/

/-- Where `P` is owned, the program changes nothing and returns `r`. -/
def Returns (P : Assertion V) (c : Prog V α) (r : α) : Prop :=
  ∀ F h, (P * F) h → c h = .ok (r, h)

/-- Where `P` is owned, the program ends without a fault and turns it into `Q`, whatever else
there is, which stays as it is. -/
def Spec (P : Assertion V) (c : Prog V α) (Q : α → Assertion V) : Prop :=
  ∀ F h, (P * F) h → ∃ r h', c h = .ok (r, h') ∧ (Q r * F) h'

variable {P P' R F : Assertion V} {c : Prog V α} {k : α → Prog V β} {r : α} {x : β}
  {Q Q' : α → Assertion V} {S : β → Assertion V}

namespace Returns

theorem ret (P : Assertion V) (r : α) : Returns P (pure r) r := fun _ _ _ => rfl

theorem bind (first : Returns P c r) (next : Returns P (k r) x) : Returns P (c >>= k) x := by
  intro F h own
  have run := first F h own
  simp only [Bind.bind, StateT.bind, run, Except.bind]
  exact next F h own

theorem pos {φ : Prop} [Decidable φ] {d : Prog V α} (holds : φ) (looks : Returns P c r) :
    Returns P (if φ then c else d) r := by
  rwa [if_pos holds]

theorem neg {φ : Prop} [Decidable φ] {d : Prog V α} (fails : ¬ φ) (looks : Returns P d r) :
    Returns P (if φ then c else d) r := by
  rwa [if_neg fails]

/-- Owning more does not matter. -/
theorem frame (looks : Returns P c r) (F : Assertion V) : Returns (P * F) c r := by
  intro F' h own
  rw [mul_assoc] at own
  exact looks _ h own

theorem of_dvd (looks : Returns P c r) (part : P ∣ R) : Returns R c r := by
  obtain ⟨F, rfl⟩ := part
  exact looks.frame F

theorem read {p : Ptr} {v : V} (part : cell p v ∣ P) : Returns P (Heap.read p) v := by
  refine of_dvd ?_ part
  intro F h own
  obtain ⟨nonNull, found, -⟩ := cell_mul.1 own
  simp only [Heap.read, if_neg nonNull, found]

theorem readAs (view : V → Option β) {p : Ptr} {v : V} (part : cell p v ∣ P)
    (shape : view v = some x) : Returns P (Heap.readAs view p) x := by
  refine bind (read part) ?_
  rw [shape]
  exact ret P x

theorem of_fact {φ : Prop} (looks : φ → Returns P c r) : Returns (fact φ * P) c r := by
  intro F h own
  rw [mul_assoc, fact_mul] at own
  exact looks own.1 F h own.2

theorem of_iSup {ι : Type} {I : ι → Assertion V} (looks : ∀ i, Returns (I i) c r) :
    Returns (⨆ i, I i) c r := by
  rintro F h ⟨h₁, h₂, disjoint, rfl, own, rest⟩
  obtain ⟨i, own⟩ := iSup_iff.1 own
  exact looks i F _ ⟨h₁, h₂, disjoint, rfl, own, rest⟩

theorem free_null (P : Assertion V) : Returns P (free 0) () := fun _ _ _ => rfl

/-- The address of a block that is owned is not null. -/
theorem nonNull {p : Ptr} {v : V} (part : cell p v ∣ P) (looks : p ≠ 0 → Returns P c r) :
    Returns P c r := by
  obtain ⟨R, rfl⟩ := part
  intro F h own
  have own' := own
  rw [mul_assoc] at own'
  exact looks (cell_mul.1 own').1 F h own

end Returns

/-! ## Structural rules -/

namespace Spec

theorem ret (P : α → Assertion V) (r : α) : Spec (P r) (pure r) P := by
  intro F h own
  exact ⟨r, h, rfl, own⟩

/-- Ending with a known result. -/
theorem exactly {P' : Assertion V} (r : α) (same : P = P') :
    Spec P (pure r) fun x => fact (x = r) * P' := by
  subst same
  intro F h own
  have mine : ((fact (r = r) : Assertion V) * P * F) h := by
    rw [mul_assoc]
    exact fact_mul.2 ⟨rfl, own⟩
  exact ⟨r, h, rfl, mine⟩

theorem bind (first : Spec P c Q) (next : ∀ r, Spec (Q r) (k r) S) : Spec P (c >>= k) S := by
  intro F h own
  obtain ⟨r, h₁, run, own₁⟩ := first F h own
  obtain ⟨x, h₂, run', own₂⟩ := next r F h₁ own₁
  refine ⟨x, h₂, ?_, own₂⟩
  simp only [Bind.bind, StateT.bind, run, Except.bind]
  exact run'

theorem pos {φ : Prop} [Decidable φ] {d : Prog V α} (holds : φ) (spec : Spec P c Q) :
    Spec P (if φ then c else d) Q := by
  rwa [if_pos holds]

theorem neg {φ : Prop} [Decidable φ] {d : Prog V α} (fails : ¬ φ) (spec : Spec P d Q) :
    Spec P (if φ then c else d) Q := by
  rwa [if_neg fails]

/-- What is not needed is kept. -/
theorem frame (spec : Spec P c Q) (F : Assertion V) : Spec (P * F) c fun r => Q r * F := by
  intro F' h own
  rw [mul_assoc] at own
  obtain ⟨r, h', run, own'⟩ := spec _ h own
  exact ⟨r, h', run, by rwa [mul_assoc]⟩

theorem conseq (spec : Spec P c Q) (pre : P' ≤ P) (post : ∀ r, Q r ≤ Q' r) : Spec P' c Q' := by
  intro F h own
  obtain ⟨r, h', run, own'⟩ := spec F h (mul_mono pre le_rfl h own)
  exact ⟨r, h', run, mul_mono (post r) le_rfl h' own'⟩

theorem done (r : α) (le : P ≤ Q r) : Spec P (pure r) Q :=
  (ret Q r).conseq le fun _ => le_rfl

theorem post (spec : Spec P c Q) (post : ∀ r, Q r ≤ Q' r) : Spec P c Q' :=
  spec.conseq le_rfl post

/-- The same assertion, written in another way. -/
theorem rearrange (same : P = P') (spec : Spec P' c Q) : Spec P c Q := same ▸ spec

/-- A step that only looks. -/
theorem look (looks : Returns P c r) (next : Spec P (k r) S) : Spec P (c >>= k) S := by
  intro F h own
  have run := looks F h own
  simp only [Bind.bind, StateT.bind, run, Except.bind]
  exact next F h own

/-- A step that needs part of what is owned. -/
theorem step (first : Spec P c Q) (part : P' = P * F)
    (next : ∀ r, Spec (Q r * F) (k r) S) : Spec P' (c >>= k) S := by
  subst part
  exact bind (first.frame F) next

/-- The last step. -/
theorem finish (last : Spec P c Q) (part : P' = P * F) (post : ∀ r, Q r * F ≤ Q' r) :
    Spec P' c Q' :=
  (last.frame F).conseq (le_of_eq part) post

theorem nonNull {p : Ptr} {v : V} (part : cell p v ∣ P) (spec : p ≠ 0 → Spec P c Q) :
    Spec P c Q := by
  obtain ⟨R, rfl⟩ := part
  intro F h own
  have own' := own
  rw [mul_assoc] at own'
  exact spec (cell_mul.1 own').1 F h own

/-- What is owned tells that a pointer is not null. -/
theorem known {p : Ptr} (nonNull : NonNull p P) (spec : p ≠ 0 → Spec P c Q) : Spec P c Q := by
  intro F h own
  have own' := own
  obtain ⟨h₁, _, -, -, mine, -⟩ := own'
  exact spec (nonNull h₁ mine) F h own

theorem of_fact {φ : Prop} (spec : φ → Spec P c Q) : Spec (fact φ * P) c Q := by
  intro F h own
  rw [mul_assoc, fact_mul] at own
  exact spec own.1 F h own.2

/-- What cannot be owned. -/
theorem of_false : Spec (fact False) c Q := by
  rw [← mul_one (fact False)]
  exact of_fact False.elim

theorem of_iSup {ι : Type} {I : ι → Assertion V} (spec : ∀ i, Spec (I i) c Q) :
    Spec (⨆ i, I i) c Q := by
  rintro F h ⟨h₁, h₂, disjoint, rfl, own, rest⟩
  obtain ⟨i, own⟩ := iSup_iff.1 own
  exact spec i F _ ⟨h₁, h₂, disjoint, rfl, own, rest⟩

/-- A program that needs nothing to start with runs beside any heap, which stays as it is. -/
theorem run_beside (spec : Spec P c Q) (start : 1 ≤ P) (h : Blocks V) :
    ∃ r h', c h = .ok (r, h') ∧ (Q r * only h) h' := by
  refine spec (only h) h (mul_mono start le_rfl h ?_)
  rw [one_mul]
  rfl

/-! ## Rules for the heap -/

theorem write (p : Ptr) (v w : V) : Spec (cell p v) (Heap.write p w) fun _ => cell p w := by
  intro F h own
  obtain ⟨nonNull, found, own⟩ := cell_mul.1 own
  have present : p ∈ h := Finmap.mem_of_lookup_eq_some found
  refine ⟨(), h.insert p w, by simp only [Heap.write, if_neg nonNull, if_pos present], ?_⟩
  refine cell_mul.2 ⟨nonNull, Finmap.lookup_insert h, ?_⟩
  have same : (h.insert p w).erase p = h.erase p := by
    apply Finmap.ext_lookup
    intro q
    by_cases hq : q = p
    · subst hq
      rw [Finmap.lookup_erase, Finmap.lookup_erase]
    · rw [Finmap.lookup_erase_ne hq, Finmap.lookup_erase_ne hq, Finmap.lookup_insert_of_ne h hq]
  rwa [same]

theorem free (p : Ptr) (v : V) : Spec (cell p v) (Heap.free p) fun _ => 1 := by
  intro F h own
  obtain ⟨nonNull, found, own⟩ := cell_mul.1 own
  have present : p ∈ h := Finmap.mem_of_lookup_eq_some found
  refine ⟨(), h.erase p, by simp only [Heap.free, if_neg nonNull, if_pos present], ?_⟩
  rwa [one_mul]

/-- A request is served with a new block, or refused with the null pointer. -/
theorem alloc {a : Allocator κ V} {site : κ} {v : V} {k : Ptr × Allocator κ V → Prog V β}
    (served : a.serves 0 site = true → ∀ p, p ≠ 0 → Spec (cell p v * P) (k (p, a.drop 1)) S)
    (refused : a.serves 0 site = false → Spec P (k (0, a.drop 1)) S) :
    Spec P (Heap.alloc a site v >>= k) S := by
  intro F h own
  simp only [Bind.bind, StateT.bind, Heap.alloc]
  cases serves : a.serves 0 site with
  | false => exact refused serves F h own
  | true =>
    refine served serves (a.place 0 h) (a.nonNull 0 h) F (h.insert (a.place 0 h) v) ?_
    rw [mul_assoc]
    refine cell_mul.2 ⟨a.nonNull 0 h, Finmap.lookup_insert h, ?_⟩
    rwa [erase_insert (a.fresh 0 h)]

end Spec

/-- Releasing what a pointer owns, unless it is null. -/
theorem Spec.unlessNull (own : Ptr → β → Assertion V) {release : Ptr → Prog V Unit} {p : Ptr}
    (nonNull : ∀ x, NonNull p (own p x)) (releases : ∀ x, Spec (own p x) (release p) fun _ => 1)
    (v : Option β) : Spec (nullable own p v) (Heap.unlessNull release p) fun _ => 1 := by
  cases v with
  | none =>
    rw [nullable, ← mul_one (fact _)]
    exact Spec.of_fact fun null => Spec.pos null (Spec.ret (fun _ => 1) ())
  | some x => exact Spec.known (nonNull x) fun nonNull => Spec.neg nonNull (releases x)

/-- Among what stands for some values there is what stands for one of them. -/
theorem Spec.of_aligned {δ : Type} {own : β → δ → Assertion V} {ps : List β} {xs : List δ}
    {i : Nat} {x : δ} (found : xs[i]? = some x)
    (spec : ∀ p, ps[i]? = some p →
      Spec (own p x * (aligned own (ps.eraseIdx i) (xs.eraseIdx i) * F)) c Q) :
    Spec (aligned own ps xs * F) c Q := by
  induction xs generalizing ps i F with
  | nil => cases found
  | cons y xs ih =>
    cases ps with
    | nil => exact Spec.of_fact False.elim
    | cons p ps =>
      rw [aligned]
      cases i with
      | zero =>
        obtain rfl : y = x := Option.some.inj found
        exact Spec.rearrange (mul_assoc _ _ _) (spec p rfl)
      | succ i =>
        refine Spec.rearrange (show _ = aligned own ps xs * (own p y * F) by ac_rfl) ?_
        refine ih found fun q at_i => Spec.rearrange ?_ (spec q at_i)
        rw [List.eraseIdx_cons_succ, List.eraseIdx_cons_succ, aligned]
        ac_rfl

/-! ## Programs that allocate and may fail -/

/-- The program has the outcome `v`, which is known without the heap: an error, after which
`rest` is owned, or a value, which the pointer that is returned leads to. -/
def Settles {ε : Type} (P : Assertion V) (c : Prog V (Except ε Ptr × Allocator κ V))
    (own : Ptr → α → Assertion V) (rest : Assertion V)
    (v : Except ε α × (Nat → κ → Bool)) : Prop :=
  Spec P c fun r => fact (r.2.serves = v.2) * settled own rest r.1 v.1

section Settling

variable {ε : Type} {own : Ptr → α → Assertion V} {rest : Assertion V}
  {prog : Prog V (Except ε Ptr × Allocator κ V)} {a : Allocator κ V}

theorem Settles.failed (err : ε) (le : P ≤ rest) :
    Settles P (pure (.error err, a)) own rest (.error err, a.serves) := by
  refine Spec.done _ (le_fact_mul rfl ?_)
  rwa [settled, fact_of rfl, one_mul]

theorem Settles.done (p : Ptr) (x : α) (le : P ≤ own p x) :
    Settles (ε := ε) P (pure (.ok p, a)) own rest (.ok x, a.serves) :=
  Spec.done _ (le_fact_mul rfl le)

/-- What follows depends on the outcome. -/
theorem Spec.settle {v : Except ε α × (Nat → κ → Bool)}
    {k : Except ε Ptr × Allocator κ V → Prog V β} (first : Settles P prog own rest v)
    (part : P' = P * F)
    (failed : ∀ err a', v = (.error err, a'.serves) → Spec (rest * F) (k (.error err, a')) S)
    (done : ∀ p x a', v = (.ok x, a'.serves) → Spec (own p x * F) (k (.ok p, a')) S) :
    Spec P' (prog >>= k) S := by
  refine Spec.step first part fun r => ?_
  obtain ⟨res, a'⟩ := r
  obtain ⟨v, mem⟩ := v
  rw [mul_assoc]
  refine Spec.of_fact ?_
  rintro rfl
  rcases res with e | p <;> rcases v with e' | x
  · rw [settled, mul_assoc]
    refine Spec.of_fact ?_
    rintro rfl
    exact failed e a' rfl
  · exact Spec.of_fact False.elim
  · exact Spec.of_fact False.elim
  · exact done p x a' rfl

end Settling

/-! ## Loops -/

theorem Assertion.AtLeast.fuel {n : Nat} {h : Blocks V} (bound : AtLeast n P) (own : (P * F) h) :
    n < h.keys.card + 1 := by
  obtain ⟨h₁, h₂, -, rfl, own, -⟩ := own
  have le : h₁.keys.card ≤ (h₁ ∪ h₂).keys.card := by
    rw [Finmap.keys_union]
    exact Finset.card_le_card Finset.subset_union_left
  exact Nat.lt_succ_of_le ((bound h₁ own).trans le)

/-- A loop has fuel for every block it may own. -/
theorem Spec.loop {body : σ → Prog V (Turn σ β)} {s : σ} {n : Nat} (bound : AtLeast n P)
    (spec : ∀ fuel, n < fuel → Spec P (iterate body fuel s) S) :
    Spec P (Heap.loop body s) S := by
  intro F h own
  exact spec (h.keys.card + 1) (bound.fuel own) F h own

/-- A turn that goes round again. -/
theorem Spec.again {body : σ → Prog V (Turn σ β)} {s : σ} {fuel : Nat} (t : σ)
    (mid : Assertion V) (spec : Spec P (body s) fun r => fact (r = .again t) * mid)
    (next : Spec mid (iterate body fuel t) S) : Spec P (iterate body (fuel + 1) s) S := by
  rw [iterate_succ]
  refine spec.bind fun r => Spec.of_fact ?_
  rintro rfl
  exact next

/-- A turn that leaves the loop. -/
theorem Spec.leave {body : σ → Prog V (Turn σ β)} {s : σ} {fuel : Nat}
    (spec : Spec P (body s) fun r => fact (r = .leave x) * S x) :
    Spec P (iterate body (fuel + 1) s) S := by
  rw [iterate_succ]
  refine spec.bind fun r => Spec.of_fact ?_
  rintro rfl
  exact Spec.ret S x

/-- How a turn of a loop on the heap matches a turn of a loop on values: both go round again, in
states related by `I`, or both leave, with results related by `Q`. -/
def turned {τ : Type} (I : τ → σ → Assertion V) (Q : α → β → Assertion V) :
    Turn τ α → Turn σ β → Assertion V
  | .again t, .again s => I t s
  | .leave x, .leave y => Q x y
  | .again _, .leave _ => fact False
  | .leave _, .again _ => fact False

/-- A loop on the heap whose turns match those of a loop on values ends as that loop does. -/
theorem Spec.simulate {τ ε : Type} {body : σ → Prog V (Turn σ β)}
    {body' : τ → Except ε (Turn τ α)} {stuck : ε} {I : τ → σ → Assertion V}
    {Q : α → β → Assertion V}
    (turn : ∀ t s next, body' t = .ok next → Spec (I t s) (body s) (turned I Q next))
    {fuel : Nat} {t : τ} {s : σ} {x : α} (run : WhileLoop.run stuck body' fuel t = .ok x) :
    Spec (I t s) (iterate body fuel s) (Q x) := by
  induction fuel generalizing t s with
  | zero => simp [WhileLoop.run] at run
  | succ fuel ih =>
    rw [iterate_succ]
    rw [WhileLoop.run] at run
    cases taken : body' t with
    | error e => simp [taken] at run
    | ok next =>
      refine (turn t s next taken).bind fun r => ?_
      rw [taken] at run
      rcases next with t' | y <;> rcases r with s' | z
      · exact ih run
      · exact Spec.of_false
      · exact Spec.of_false
      · obtain rfl : y = x := Except.ok.inj run
        exact Spec.ret (Q y) z

theorem Returns.loop {body : σ → Prog V (Turn σ β)} {s : σ} {n : Nat} (bound : AtLeast n P)
    (looks : ∀ fuel, n < fuel → Returns P (iterate body fuel s) x) :
    Returns P (Heap.loop body s) x := by
  intro F h own
  exact looks (h.keys.card + 1) (bound.fuel own) F h own

theorem Returns.foldlM {ι : Type} {f : β → ι → Prog V β} {g : β → ι → β} (l : List ι)
    (steps : ∀ i ∈ l, ∀ b, Returns P (f b i) (g b i)) (b : β) :
    Returns P (l.foldlM f b) (l.foldl g b) := by
  induction l generalizing b with
  | nil => exact Returns.ret P b
  | cons i l ih =>
    rw [List.foldlM_cons, List.foldl_cons]
    exact (steps i List.mem_cons_self b).bind
      (ih (fun j hj => steps j (List.mem_cons_of_mem i hj)) _)

theorem Returns.turn {body : σ → Prog V (Turn σ β)} {s : σ} {fuel : Nat}
    (looks : Returns P (body s >>= follow body fuel) x) :
    Returns P (iterate body (fuel + 1) s) x := by
  rwa [iterate_succ]

/-! ## Several owners -/

/-- A program that needs one of several parts leaves the others alone. -/
theorem Spec.focus {ι : Type} [Fintype ι] [DecidableEq ι] {I : ι → Assertion V} (i : ι)
    {φ : α → Prop} (spec : Spec (I i) c fun r => fact (φ r) * Q r) :
    Spec (∏ j, I j) c fun r => fact (φ r) * ∏ j, Function.update I i (Q r) j := by
  refine (spec.frame (∏ j ∈ Finset.univ \ {i}, I j)).conseq (le_of_eq ?_) fun r => le_of_eq ?_
  · rw [Finset.sdiff_singleton_eq_erase, Finset.mul_prod_erase _ _ (Finset.mem_univ i)]
  · rw [Finset.prod_update_of_mem (Finset.mem_univ i), mul_assoc]

/-- Doing the same for every element of a list, next to what they share. -/
theorem Spec.forM {ι : Type} {f : ι → Prog V PUnit} {I J : ι → Assertion V} (l : List ι)
    (spec : ∀ i ∈ l, Spec (R * I i) (f i) fun _ => R * J i) :
    Spec (R * (l.map I).prod) (l.forM f) fun _ => R * (l.map J).prod := by
  induction l with
  | nil => exact Spec.ret (fun _ => R * 1) PUnit.unit
  | cons i l ih =>
    simp only [List.map_cons, List.prod_cons]
    refine Spec.step (spec i List.mem_cons_self) (F := (l.map I).prod) (mul_assoc _ _ _).symm ?_
    intro _
    have rest := (ih fun j hj => spec j (List.mem_cons_of_mem i hj)).frame (J i)
    refine rest.conseq (le_of_eq ?_) fun _ => le_of_eq ?_ <;> ac_rfl

end Separation
