import LibAmp.Lib.Linked
import LibAmp.Runtime
import Mathlib.Algebra.BigOperators.Fin

/-!
# Linked lists (`list.c`)

Lists of pointers on the heap. Any calls on any number of lists, with allocations failing in any
pattern and blocks placed anywhere, answer as functional lists do, and freeing the lists gives
the heap back as it was (`lists_refine`).

## Main definitions

* `listPush`, `listPop`, `listReverse`, `listLength`, `listMap`, `listFree` — the functions.
* `holds` — a list pointer and what it stands for.

## Main results

* `ListOp.run_spec` — one call.
* `lists_refine` — any calls, and the lists freed after them.
-/

namespace LibAmp

open Heap WhileLoop Linked Separation Assertion

/-- `struct List`. -/
structure ListBlock where
  rest : Ptr
  first : Ptr
  deriving DecidableEq, Repr

abbrev ListAllocator := Allocator Unit ListBlock

def listLayout : Layout ListBlock Ptr where
  build rest first := ⟨rest, first⟩
  view b := some (b.rest, b.first)
  view_build _ _ := rfl

/-! ## The functions -/

/-- The list pointer returned and `*err`. -/
def listPush (a : ListAllocator) (list x : Ptr) :
    Prog ListBlock ((Ptr × Int) × ListAllocator) := do
  let (p, a) ← alloc a () ⟨list, x⟩
  if p = 0 then return ((list, enomem), a)
  else return ((p, 0), a)

/-- The list pointer returned, and what is stored in `*x` if anything is. -/
def listPop (list : Ptr) : Prog ListBlock (Ptr × Option Ptr) := do
  if list = 0 then return (list, none)
  else
    let (head, x) ← readNode listLayout list
    free list
    return (head, some x)

def listReverse (list : Ptr) : Prog ListBlock Ptr := reverse listLayout list

def listLength (list : Ptr) : Prog ListBlock Int := do
  return ((← count listLayout list : Nat) : Int)

/-- The list pointer is null afterwards. -/
def listFree (list : Ptr) : Prog ListBlock Ptr := do
  freeFrom listLayout (fun _ => pure ()) list
  return 0

/-- `apply` changes an element through the pointer it is given, and its own closure. -/
def listMap {C : Type} (apply : Ptr → C → Ptr × C) (list : Ptr) (cl : C) : Prog ListBlock C :=
  loop (fun s : Ptr × C =>
    if s.1 = 0 then pure (.leave s.2)
    else do
      let (rest, x) ← readNode listLayout s.1
      write s.1 ⟨rest, (apply x s.2).1⟩
      let (next, _) ← readNode listLayout s.1
      pure (.again (next, (apply x s.2).2))) (list, cl)

/-- What `listMap` makes of the elements and of the closure. -/
def mapWith {C : Type} (apply : Ptr → C → Ptr × C) : List Ptr → C → List Ptr × C
  | [], cl => ([], cl)
  | x :: xs, cl =>
    ((apply x cl).1 :: (mapWith apply xs (apply x cl).2).1, (mapWith apply xs (apply x cl).2).2)

/-! ## What a list pointer stands for -/

/-- The list at `p` has the elements `xs`. -/
def holds (p : Ptr) (xs : List Ptr) : Assertion ListBlock :=
  ⨆ ns : List (Node Ptr Unit),
    fact (p = Linked.first ns 0 ∧ ns.map (·.data) = xs) * cells listLayout ns 0

theorem cells_le_holds (ns : List (Node Ptr Unit)) :
    cells listLayout ns 0 ≤ holds (Linked.first ns 0) (ns.map (·.data)) := by
  intro h own
  exact iSup_iff.2 ⟨ns, fact_mul.2 ⟨⟨rfl, rfl⟩, own⟩⟩

theorem holds_nil : (1 : Assertion ListBlock) ≤ holds 0 [] := cells_le_holds []

/-- To show something of a list is to show it of its nodes. -/
theorem of_holds {α : Type} {p : Ptr} {xs : List Ptr} {c : Prog ListBlock α}
    {Q : α → Assertion ListBlock}
    (spec : ∀ ns : List (Node Ptr Unit), p = Linked.first ns 0 → ns.map (·.data) = xs →
      Spec (cells listLayout ns 0) c Q) : Spec (holds p xs) c Q :=
  Spec.of_iSup fun ns => Spec.of_fact fun known => spec ns known.1 known.2

theorem listFree_spec (p : Ptr) (xs : List Ptr) :
    Spec (holds p xs) (listFree p) fun r => fact (r = 0) * 1 := by
  refine of_holds fun ns head _ => ?_
  subst head
  have freed := freeFrom_spec (L := listLayout) (fun _ => pure ()) (fun _ => 1) ns
    fun n _ => Spec.ret (fun _ => 1) ()
  rw [List.map_const', List.prod_replicate, one_pow, mul_one] at freed
  exact freed.bind fun _ => Spec.exactly 0 rfl

/-- The nodes after the callback has been applied along them. -/
def mapNodes {C : Type} (apply : Ptr → C → Ptr × C) :
    List (Node Ptr Unit) → C → List (Node Ptr Unit)
  | [], _ => []
  | n :: ns, cl => ⟨n.addr, (apply n.data cl).1, ()⟩ :: mapNodes apply ns (apply n.data cl).2

theorem first_mapNodes {C : Type} (apply : Ptr → C → Ptr × C) (ns : List (Node Ptr Unit)) (cl : C) :
    Linked.first (mapNodes apply ns cl) 0 = Linked.first ns 0 := by
  cases ns <;> rfl

theorem data_mapNodes {C : Type} (apply : Ptr → C → Ptr × C) (ns : List (Node Ptr Unit)) (cl : C) :
    (mapNodes apply ns cl).map (·.data) = (mapWith apply (ns.map (·.data)) cl).1 := by
  induction ns generalizing cl with
  | nil => rfl
  | cons n ns ih => rw [mapNodes, List.map_cons, List.map_cons, mapWith, ih]

/-- The callback sees the elements in their order. -/
theorem listMap_spec {C : Type} (apply : Ptr → C → Ptr × C) (p : Ptr) (xs : List Ptr) (cl : C) :
    Spec (holds p xs) (listMap apply p cl) fun r =>
      fact (r = (mapWith apply xs cl).2) * holds p (mapWith apply xs cl).1 := by
  refine of_holds fun ns head data => ?_
  subst head data
  have nodes : Spec (cells listLayout ns 0) (listMap apply (Linked.first ns 0) cl) fun r =>
      fact (r = (mapWith apply (ns.map (·.data)) cl).2) *
        cells listLayout (mapNodes apply ns cl) 0 := by
    have bound := atLeast_chain (L := listLayout) ns 1
    rw [one_mul] at bound
    refine Spec.loop bound fun fuel enough => ?_
    clear bound
    induction ns generalizing cl fuel with
    | nil =>
      obtain ⟨fuel, rfl⟩ := Nat.exists_eq_succ_of_ne_zero (by omega : fuel ≠ 0)
      refine Spec.leave (x := cl) (Spec.pos rfl ?_)
      exact Spec.exactly _ (by simp [mapNodes, mapWith, fact_of])
    | cons n ns ih =>
      obtain ⟨fuel, rfl⟩ := Nat.exists_eq_succ_of_ne_zero (by omega : fuel ≠ 0)
      have rest := ih (apply n.data cl).2 fuel (by simpa using enough)
      have framed := rest.frame
        (cell n.addr (listLayout.build (Linked.first ns 0) (apply n.data cl).1))
      rw [mul_comm] at framed
      refine Spec.again (Linked.first ns 0, (apply n.data cl).2) _ ?_
        (framed.post fun r => le_of_eq ?_)
      · have own : cells listLayout (n :: ns) 0 ∣ cells listLayout (n :: ns) 0 := dvd_rfl
        refine Spec.nonNull (dvd_mul_right _ _) fun nonNull => Spec.neg nonNull ?_
        refine Spec.look (readNode_returns own) ?_
        refine Spec.step (Spec.write n.addr _ _) rfl fun _ => ?_
        refine Spec.look (Returns.readAs listLayout.view (dvd_mul_right _ _) rfl) ?_
        exact Spec.exactly _ rfl
      · simp only [mapNodes, cells, first_mapNodes, List.map_cons, mapWith]
        ac_rfl
  refine nodes.post fun r => mul_mono le_rfl ?_
  rw [← first_mapNodes apply ns cl, ← data_mapNodes]
  exact cells_le_holds _

/-- What a push reports and leaves, as the allocator has it. -/
def pushed (a : ListAllocator) (x : Ptr) (xs : List Ptr) : Int × List Ptr :=
  if a.serves 0 () then (0, x :: xs) else (enomem, xs)

theorem listPush_spec (a : ListAllocator) (p x : Ptr) (xs : List Ptr) :
    Spec (holds p xs) (listPush a p x) fun r =>
      fact (r.1.2 = (pushed a x xs).1 ∧ r.2 = a.drop 1) * holds r.1.1 (pushed a x xs).2 := by
  refine of_holds fun ns head data => ?_
  subst head data
  refine Spec.alloc (fun served q nonNull => Spec.neg nonNull ?_)
    fun refused => Spec.pos rfl ?_
  · have grown : cells listLayout (⟨q, x, ()⟩ :: ns) 0 ≤ holds q (x :: ns.map (·.data)) :=
      cells_le_holds (⟨q, x, ()⟩ :: ns)
    rw [pushed, if_pos served]
    exact Spec.done _ (le_fact_mul ⟨rfl, rfl⟩ grown)
  · rw [pushed, if_neg (Bool.eq_false_iff.1 refused)]
    exact Spec.done _ (le_fact_mul ⟨rfl, rfl⟩ (cells_le_holds ns))

theorem listPop_spec (p : Ptr) (xs : List Ptr) :
    Spec (holds p xs) (listPop p) fun r => fact (r.2 = xs.head?) * holds r.1 xs.tail := by
  refine of_holds fun ns head data => ?_
  subst head data
  cases ns with
  | nil =>
    refine Spec.pos rfl ?_
    exact Spec.done _ (le_fact_mul rfl holds_nil)
  | cons n ns =>
    refine Spec.nonNull (dvd_mul_right _ _) fun nonNull => Spec.neg nonNull ?_
    refine Spec.look (readNode_returns dvd_rfl) ?_
    refine Spec.step (Spec.free n.addr _) rfl fun _ => ?_
    rw [one_mul]
    exact Spec.done _ (le_fact_mul rfl (cells_le_holds ns))

theorem listReverse_spec (p : Ptr) (xs : List Ptr) :
    Spec (holds p xs) (listReverse p) fun r => holds r xs.reverse := by
  refine of_holds fun ns head data => ?_
  subst head data
  refine (reverse_spec ns).post fun r => ?_
  rw [← List.map_reverse]
  intro h own
  obtain ⟨rfl, nodes⟩ := fact_mul.1 own
  exact cells_le_holds _ h nodes

theorem listLength_spec (p : Ptr) (xs : List Ptr) :
    Spec (holds p xs) (listLength p) fun r => fact (r = xs.length) * holds p xs := by
  refine of_holds fun ns head data => ?_
  subst head data
  refine Spec.look (count_returns dvd_rfl) ?_
  refine (Spec.exactly _ rfl).post fun r => mul_mono (le_of_eq ?_) (cells_le_holds ns)
  rw [List.length_map]

/-! ## Any calls on any number of lists -/

/-- One call on one of `n` list pointers. -/
inductive ListOp (n : Nat) (C : Type) where
  | push (i : Fin n) (x : Ptr)
  | pop (i : Fin n)
  | reverse (i : Fin n)
  | length (i : Fin n)
  | map (i : Fin n) (apply : Ptr → C → Ptr × C) (cl : C)

/-- What a call hands back besides the list pointer. -/
inductive ListReply (C : Type) where
  | code (ret : Int)
  | popped (x : Option Ptr)
  | closure (cl : C)
  | nothing

namespace ListOp

variable {n : Nat} {C : Type}

/-- Perform one call; the variable the list is kept in gets the pointer returned. -/
def run (a : ListAllocator) (lists : Fin n → Ptr) :
    ListOp n C → Prog ListBlock (ListReply C × (Fin n → Ptr) × ListAllocator)
  | push i x => do
    let ((p, err), a) ← listPush a (lists i) x
    return (.code err, Function.update lists i p, a)
  | pop i => do
    let (p, x) ← listPop (lists i)
    return (.popped x, Function.update lists i p, a)
  | reverse i => do
    let p ← listReverse (lists i)
    return (.nothing, Function.update lists i p, a)
  | length i => do
    let len ← listLength (lists i)
    return (.code len, lists, a)
  | map i apply cl => do
    let cl ← listMap apply (lists i) cl
    return (.closure cl, lists, a)

/-- The same call on functional lists. -/
def spec (a : ListAllocator) (xs : Fin n → List Ptr) :
    ListOp n C → ListReply C × (Fin n → List Ptr) × ListAllocator
  | push i x =>
    (.code (pushed a x (xs i)).1, Function.update xs i (pushed a x (xs i)).2, a.drop 1)
  | pop i => (.popped (xs i).head?, Function.update xs i (xs i).tail, a)
  | reverse i => (.nothing, Function.update xs i (xs i).reverse, a)
  | length i => (.code (xs i).length, xs, a)
  | map i apply cl =>
    (.closure (mapWith apply (xs i) cl).2,
      Function.update xs i (mapWith apply (xs i) cl).1, a)

/-- List variables and what they stand for. -/
def held (lists : Fin n → Ptr) (xs : Fin n → List Ptr) : Assertion ListBlock :=
  ∏ i, holds (lists i) (xs i)

theorem held_update (lists : Fin n → Ptr) (xs : Fin n → List Ptr) (i : Fin n) (p : Ptr)
    (ys : List Ptr) :
    ∏ j, Function.update (fun j => holds (lists j) (xs j)) i (holds p ys) j =
      held (Function.update lists i p) (Function.update xs i ys) := by
  refine Finset.prod_congr rfl fun j _ => ?_
  by_cases hj : j = i
  · subst hj
    simp only [Function.update_self]
  · simp only [Function.update_of_ne hj]

theorem run_spec (a : ListAllocator) (lists : Fin n → Ptr) (xs : Fin n → List Ptr)
    (op : ListOp n C) :
    Spec (held lists xs) (op.run a lists) fun r =>
      fact (r.1 = (op.spec a xs).1 ∧ r.2.2 = (op.spec a xs).2.2) *
        held r.2.1 (op.spec a xs).2.1 := by
  have same (i : Fin n) (ys : List Ptr) :=
    (held_update lists xs i (lists i) ys).trans (by rw [Function.update_eq_self])
  cases op with
  | push i x =>
    refine (Spec.focus i (listPush_spec a (lists i) x (xs i))).bind fun r => Spec.of_fact ?_
    rintro ⟨code, rest⟩
    rw [held_update]
    exact Spec.done _ (le_fact_mul ⟨congrArg _ code, rest⟩ le_rfl)
  | pop i =>
    refine (Spec.focus i (listPop_spec (lists i) (xs i))).bind fun r => Spec.of_fact fun top => ?_
    rw [held_update]
    exact Spec.done _ (le_fact_mul ⟨congrArg _ top, rfl⟩ le_rfl)
  | reverse i =>
    have reversed := (listReverse_spec (lists i) (xs i)).post fun r =>
      le_fact_mul trivial le_rfl
    refine (Spec.focus i reversed).bind fun r => Spec.of_fact fun _ => ?_
    rw [held_update]
    exact Spec.done _ (le_fact_mul ⟨rfl, rfl⟩ le_rfl)
  | length i =>
    refine (Spec.focus i (listLength_spec (lists i) (xs i))).bind fun r =>
      Spec.of_fact fun count => ?_
    rw [same, Function.update_eq_self]
    exact Spec.done _ (le_fact_mul ⟨congrArg _ count, rfl⟩ le_rfl)
  | map i apply cl =>
    refine (Spec.focus i (listMap_spec apply (lists i) (xs i) cl)).bind fun r =>
      Spec.of_fact fun closure => ?_
    rw [same]
    exact Spec.done _ (le_fact_mul ⟨congrArg _ closure, rfl⟩ le_rfl)

end ListOp

section Histories

variable {n : Nat} {C : Type}

/-- Perform the calls in order and collect the replies. -/
def runLists (a : ListAllocator) (lists : Fin n → Ptr) :
    List (ListOp n C) → Prog ListBlock (List (ListReply C) × (Fin n → Ptr) × ListAllocator)
  | [] => pure ([], lists, a)
  | op :: ops => do
    let (reply, lists, a) ← op.run a lists
    let (replies, lists, a) ← runLists a lists ops
    return (reply :: replies, lists, a)

def specLists (a : ListAllocator) (xs : Fin n → List Ptr) :
    List (ListOp n C) → List (ListReply C) × (Fin n → List Ptr) × ListAllocator
  | [] => ([], xs, a)
  | op :: ops =>
    let (reply, xs, a) := op.spec a xs
    let (replies, xs, a) := specLists a xs ops
    (reply :: replies, xs, a)

/-- `List_free` on every list. -/
def freeLists (lists : Fin n → Ptr) : Prog ListBlock Unit :=
  (List.finRange n).forM fun i => do
    let _ ← listFree (lists i)

theorem runLists_spec (a : ListAllocator) (lists : Fin n → Ptr) (xs : Fin n → List Ptr)
    (ops : List (ListOp n C)) :
    Spec (ListOp.held lists xs) (runLists a lists ops) fun r =>
      fact (r.1 = (specLists a xs ops).1 ∧ r.2.2 = (specLists a xs ops).2.2) *
        ListOp.held r.2.1 (specLists a xs ops).2.1 := by
  induction ops generalizing a lists xs with
  | nil => exact Spec.done _ (le_fact_mul ⟨rfl, rfl⟩ le_rfl)
  | cons op ops ih =>
    refine (op.run_spec a lists xs).bind fun r => Spec.of_fact ?_
    rintro ⟨reply, alloc⟩
    refine (ih r.2.2 r.2.1 _).bind fun s => Spec.of_fact ?_
    rintro ⟨replies, rest⟩
    rw [alloc] at replies rest
    refine Spec.done _ (le_fact_mul ⟨?_, rest⟩ (le_of_eq ?_))
    · rw [reply, replies]
      rfl
    · rw [alloc]
      rfl

theorem freeLists_spec (lists : Fin n → Ptr) (xs : Fin n → List Ptr) :
    Spec (ListOp.held lists xs) (freeLists lists) fun _ => 1 := by
  have freed := Spec.forM (R := 1) (I := fun i => holds (lists i) (xs i)) (J := fun _ => 1)
    (f := fun i => do let _ ← listFree (lists i)) (List.finRange n) fun i _ => by
      rw [one_mul, one_mul]
      exact (listFree_spec (lists i) (xs i)).bind fun r =>
        Spec.of_fact fun _ => Spec.ret (fun _ => 1) ()
  rw [← Fin.prod_univ_def, one_mul] at freed
  refine freed.post fun _ => le_of_eq ?_
  rw [List.map_const', List.prod_replicate, one_pow, mul_one]

/-- Whatever is called on some lists, with whichever allocations failing and wherever the blocks
are placed: nothing faults, every reply is that of functional lists, and freeing the lists gives
back the heap there was before. -/
theorem lists_refine (a : ListAllocator) (ops : List (ListOp n C)) (h : Blocks ListBlock) :
    ∃ lists h', runLists a (fun _ => 0) ops h =
        .ok (((specLists a (fun _ => []) ops).1, lists, (specLists a (fun _ => []) ops).2.2), h') ∧
      freeLists lists h' = .ok ((), h) := by
  have empty : (1 : Assertion ListBlock) ≤ ListOp.held (fun _ : Fin n => 0) fun _ => [] := by
    rw [ListOp.held, ← Finset.prod_const_one (s := (Finset.univ : Finset (Fin n)))]
    exact Assertion.prod_mono fun _ _ => holds_nil
  obtain ⟨⟨replies, lists, rest⟩, h', run, own⟩ :=
    (runLists_spec a (fun _ => 0) (fun _ => []) ops).run_beside empty h
  rw [mul_assoc] at own
  obtain ⟨⟨rfl, rfl⟩, own⟩ := fact_mul.1 own
  refine ⟨lists, h', run, ?_⟩
  obtain ⟨_, h'', freed, own⟩ := freeLists_spec lists _ _ h' own
  rw [one_mul] at own
  exact own ▸ freed

end Histories

end LibAmp
