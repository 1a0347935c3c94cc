import LibAmp.Lib.Separation
import Mathlib.Algebra.BigOperators.Group.List.Basic

/-!
# Singly linked structures

The loops that C code runs over a chain of structs with a link field: searching, searching with
a trailing pointer or a pointer to the link, counting, reversing in place and freeing. A chain is
described by the list of its nodes, addresses included, so that a program's effect on it is a
function on lists.

## Main definitions

* `Layout` — how a struct with a link lies in a block.
* `cells` — the cells of some nodes, each linked to the next, the last one to an address.

## Main results

* `find_returns`, `findPrev_returns`, `findSlot_returns` — the searches stop at the first match.
* `freeFrom_spec` — freeing a chain leaves nothing of it.
* `reverse_spec` — reversing in place reverses the list of nodes.
-/

namespace Linked

open Heap WhileLoop Separation Assertion

variable {V D G : Type}

/-- How a struct with a link lies in a block: `build` fills it in, `view` reads it. -/
structure Layout (V D : Type) where
  build : Ptr → D → V
  view : V → Option (Ptr × D)
  view_build : ∀ link data, view (build link data) = some (link, data)

/-- A node: where it is, what it holds besides the link, and what that stands for. -/
structure Node (D G : Type) where
  addr : Ptr
  data : D
  ghost : G

/-! ## Programs -/

section Programs

variable (L : Layout V D)

def readNode (p : Ptr) : Prog V (Ptr × D) := readAs L.view p

/-- `p->link = q`. -/
def setLink (p q : Ptr) : Prog V Unit := do
  let (_, data) ← readNode L p
  write p (L.build q data)

/-- `for (; p; p = p->link) if (test(p)) break;`, and `p` after it. -/
def findFrom (test : D → Prog V Bool) (p : Ptr) : Prog V Ptr :=
  loop (fun p =>
    if p = 0 then pure (.leave 0)
    else do
      let (link, data) ← readNode L p
      if ← test data then pure (.leave p) else pure (.again link)) p

/-- The same loop with a pointer `prev` to the node passed last, and both after it. -/
def findPrev (test : D → Prog V Bool) (p : Ptr) : Prog V (Ptr × Ptr) :=
  loop (fun s : Ptr × Ptr =>
    if s.2 = 0 then pure (.leave s)
    else do
      let (link, data) ← readNode L s.2
      if ← test data then pure (.leave s) else pure (.again (s.2, link))) (0, p)

/-- Where a link is stored: at the head of the chain, or in a node. -/
inductive Slot where
  | head
  | after (p : Ptr)
  deriving DecidableEq, Repr

/-- `*pp`. -/
def load (head : Prog V Ptr) : Slot → Prog V Ptr
  | .head => head
  | .after p => do return (← readNode L p).1

/-- `for (pp = &head; *pp; pp = &(*pp)->link) if (test(*pp)) break;`, and `pp` after it. -/
def findSlot (head : Prog V Ptr) (test : D → Prog V Bool) : Prog V Slot :=
  loop (fun pp => do
    let p ← load L head pp
    if p = 0 then pure (.leave pp)
    else do
      let (_, data) ← readNode L p
      if ← test data then pure (.leave pp) else pure (.again (.after p))) .head

/-- `for (n = 0; p; p = p->link) n++;`. -/
def count (p : Ptr) : Prog V Nat :=
  loop (fun s : Nat × Ptr =>
    if s.2 = 0 then pure (.leave s.1)
    else do
      let (link, _) ← readNode L s.2
      pure (.again (s.1 + 1, link))) (0, p)

/-- `for (; p; p = p->link) b = f(b, p);`, and `b` after it. -/
def foldFrom {β : Type} (f : β → D → Prog V β) (b : β) (p : Ptr) : Prog V β :=
  loop (fun s : β × Ptr =>
    if s.2 = 0 then pure (.leave s.1)
    else do
      let (link, data) ← readNode L s.2
      let b ← f s.1 data
      pure (.again (b, link))) (b, p)

/-- `for (; p; p = next) { next = p->link; p->link = head; head = p; }`, and `head` after it. -/
def reverse (p : Ptr) : Prog V Ptr :=
  loop (fun s : Ptr × Ptr =>
    if s.2 = 0 then pure (.leave s.1)
    else do
      let (next, data) ← readNode L s.2
      write s.2 (L.build s.1 data)
      pure (.again (s.2, next))) (0, p)

/-- `for (; p; p = next) { next = p->link; release(p); free(p); }`. -/
def freeFrom (release : D → Prog V Unit) (p : Ptr) : Prog V Unit :=
  loop (fun p =>
    if p = 0 then pure (.leave ())
    else do
      let (next, data) ← readNode L p
      release data
      free p
      pure (.again next)) p

end Programs

/-! ## Segments -/

/-- The address of the first of some nodes, or `last` if there are none. -/
def first (nodes : List (Node D G)) (last : Ptr) : Ptr :=
  match nodes with
  | [] => last
  | n :: _ => n.addr

variable {L : Layout V D}

/-- Some nodes, each linked to the next, the last one linked to `last`. -/
def cells (L : Layout V D) : List (Node D G) → Ptr → Assertion V
  | [], _ => 1
  | n :: ns, last => cell n.addr (L.build (first ns last) n.data) * cells L ns last

@[simp] theorem first_nil (last : Ptr) : first ([] : List (Node D G)) last = last := rfl

@[simp] theorem first_cons (n : Node D G) (ns : List (Node D G)) (last : Ptr) :
    first (n :: ns) last = n.addr := rfl

@[simp] theorem cells_nil (last : Ptr) :
    cells L ([] : List (Node D G)) last = 1 := rfl

theorem first_append (ms ns : List (Node D G)) (last : Ptr) :
    first (ms ++ ns) last = first ms (first ns last) := by
  cases ms <;> rfl

theorem cells_append (ms ns : List (Node D G)) (last : Ptr) :
    cells L (ms ++ ns) last = cells L ms (first ns last) * cells L ns last := by
  induction ms with
  | nil => rw [List.nil_append, cells_nil, one_mul]
  | cons m ms ih =>
    rw [List.cons_append, cells, cells, ih, first_append, mul_assoc]

theorem atLeast_cells (ns : List (Node D G)) (last : Ptr) (P : Assertion V) :
    AtLeast ns.length (cells L ns last * P) := by
  induction ns with
  | nil => exact atLeast_zero _
  | cons n ns ih =>
    rw [cells, mul_assoc]
    exact ih.cell_mul n.addr _

/-- Every node of a segment is one of its cells. -/
theorem cell_dvd_cells (ms : List (Node D G)) (n : Node D G) (ns : List (Node D G)) (last : Ptr) :
    cell n.addr (L.build (first ns last) n.data) ∣ cells L (ms ++ n :: ns) last := by
  rw [cells_append, cells]
  exact (dvd_mul_right _ _).mul_left _

theorem cells_dvd_cons {n : Node D G} {ns : List (Node D G)} {last : Ptr} {P : Assertion V}
    (own : cells L (n :: ns) last ∣ P) : cells L ns last ∣ P :=
  (dvd_mul_left _ _).trans own

/-- Reading the first node of a segment. -/
theorem readNode_returns {n : Node D G} {ns : List (Node D G)} {last : Ptr} {P : Assertion V}
    (own : cells L (n :: ns) last ∣ P) :
    Returns P (readNode L n.addr) (first ns last, n.data) :=
  Returns.readAs L.view ((dvd_mul_right _ _).trans own) (L.view_build _ _)

/-! ## Walking along a chain -/

/-- A loop that looks at one node each turn. `now s ns` says that in state `s` the nodes `ns` are
still to come, and `result s ns` what the loop then gives. -/
theorem walk {σ β : Type} {P : Assertion V} {body : σ → Prog V (Turn σ β)}
    (now : σ → List (Node D G) → Prop) (result : σ → List (Node D G) → β)
    (turn : ∀ s ns, now s ns → cells L ns 0 ∣ P →
      Returns P (body s) (.leave (result s ns)) ∨
        ∃ n ms t, ns = n :: ms ∧ Returns P (body s) (.again t) ∧ now t ms ∧
          result t ms = result s ns)
    {s : σ} {ns : List (Node D G)} (start : now s ns) (own : cells L ns 0 ∣ P) :
    Returns P (loop body s) (result s ns) := by
  have bound : AtLeast ns.length P := by
    obtain ⟨R, rfl⟩ := own
    exact atLeast_cells ns 0 R
  refine Returns.loop bound fun fuel enough => ?_
  clear bound
  induction fuel generalizing s ns with
  | zero => omega
  | succ fuel ih =>
    apply Returns.turn
    rcases turn s ns start own with leaves | ⟨n, ms, t, rfl, again, later, same⟩
    · exact leaves.bind (Returns.ret P _)
    · rw [← same]
      exact again.bind (ih later (cells_dvd_cons own) (by simpa using enough))

section Searching

variable {P : Assertion V} {test : D → Prog V Bool} {f : Node D G → Bool}

/-- The address of a node that was looked for, null if there is none. -/
def address (found : Option (Node D G)) : Ptr := found.elim 0 Node.addr

/-- The nodes before the first match. -/
def before (f : Node D G → Bool) (ns : List (Node D G)) : List (Node D G) :=
  ns.takeWhile fun n => !f n

/-- The address of the last of some nodes, or `prev` if there are none. -/
def lastAddr (prev : Ptr) (ns : List (Node D G)) : Ptr := ns.foldl (fun _ n => n.addr) prev

/-- The link behind the last of some nodes, or `pp` if there are none. -/
def lastSlot (pp : Slot) (ns : List (Node D G)) : Slot := ns.foldl (fun _ n => .after n.addr) pp

/-- What a search that succeeds has gone past. -/
theorem find?_split {ns : List (Node D G)} {n : Node D G} (found : ns.find? f = some n) :
    ∃ pre post, ns = pre ++ n :: post ∧ before f ns = pre ∧ f n = true ∧
      ∀ m ∈ pre, f m = false := by
  obtain ⟨hn, pre, post, rfl, none⟩ := List.find?_eq_some_iff_append.1 found
  have none' : ∀ m ∈ pre, f m = false := fun m hm => by simpa using none m hm
  refine ⟨pre, post, rfl, ?_, hn, none'⟩
  rw [before, List.takeWhile_append_of_pos (by simpa using none'),
    List.takeWhile_cons_of_neg (by simp [hn]), List.append_nil]

theorem findFrom_returns (ns : List (Node D G)) (own : cells L ns 0 ∣ P)
    (tests : ∀ n ∈ ns, Returns P (test n.data) (f n)) :
    Returns P (findFrom L test (first ns 0)) (address (ns.find? f)) := by
  refine walk (fun p ms => p = first ms 0 ∧ ms ⊆ ns)
    (fun _ ms => address (ms.find? f)) ?_ ⟨rfl, List.Subset.refl ns⟩ own
  rintro _ ms ⟨rfl, sub⟩ own
  cases ms with
  | nil => exact .inl (Returns.ret P _)
  | cons n ms =>
    have nonNull := dvd_trans (dvd_mul_right _ _) own
    have test := tests n (sub List.mem_cons_self)
    cases hf : f n with
    | true =>
      left
      refine Returns.nonNull nonNull fun nonNull => Returns.neg nonNull ?_
      simp only [List.find?_cons, hf] at test ⊢
      exact (readNode_returns own).bind (test.bind (Returns.ret P _))
    | false =>
      right
      refine ⟨n, ms, first ms 0, rfl, ?_, ⟨rfl, fun m hm => sub (List.mem_cons_of_mem n hm)⟩, ?_⟩
      · rw [hf] at test
        refine Returns.nonNull nonNull fun nonNull => Returns.neg nonNull ?_
        exact (readNode_returns own).bind (test.bind (Returns.ret P _))
      · simp only [List.find?_cons, hf]

/-- The trailing pointer ends up at the node before the first match. -/
theorem findPrev_returns (ns : List (Node D G)) (own : cells L ns 0 ∣ P)
    (tests : ∀ n ∈ ns, Returns P (test n.data) (f n)) :
    Returns P (findPrev L test (first ns 0))
      (lastAddr 0 (before f ns), address (ns.find? f)) := by
  refine walk (fun s ms => s.2 = first ms 0 ∧ ms ⊆ ns)
    (fun s ms => (lastAddr s.1 (before f ms), address (ms.find? f))) ?_
    (s := (0, first ns 0)) ⟨rfl, List.Subset.refl ns⟩ own
  rintro ⟨prev, _⟩ ms ⟨rfl, sub⟩ own
  cases ms with
  | nil => exact .inl (Returns.ret P _)
  | cons n ms =>
    have nonNull := dvd_trans (dvd_mul_right _ _) own
    have test := tests n (sub List.mem_cons_self)
    cases hf : f n with
    | true =>
      left
      refine Returns.nonNull nonNull fun nonNull => Returns.neg nonNull ?_
      simp only [List.find?_cons, before, List.takeWhile_cons, hf] at test ⊢
      exact (readNode_returns own).bind (test.bind (Returns.ret P _))
    | false =>
      right
      refine ⟨n, ms, (n.addr, first ms 0), rfl, ?_,
        ⟨rfl, fun m hm => sub (List.mem_cons_of_mem n hm)⟩, ?_⟩
      · rw [hf] at test
        refine Returns.nonNull nonNull fun nonNull => Returns.neg nonNull ?_
        exact (readNode_returns own).bind (test.bind (Returns.ret P _))
      · simp only [List.find?_cons, before, List.takeWhile_cons, hf]
        rfl

/-- The pointer to the link ends up at the link to the first match. -/
theorem findSlot_returns (ns : List (Node D G)) {head : Prog V Ptr} (own : cells L ns 0 ∣ P)
    (heads : Returns P head (first ns 0))
    (tests : ∀ n ∈ ns, Returns P (test n.data) (f n)) :
    Returns P (findSlot L head test) (lastSlot .head (before f ns)) := by
  refine walk (fun pp ms => Returns P (load L head pp) (first ms 0) ∧ ms ⊆ ns)
    (fun pp ms => lastSlot pp (before f ms)) ?_ ⟨heads, List.Subset.refl ns⟩ own
  rintro pp ms ⟨loads, sub⟩ own
  cases ms with
  | nil => exact .inl (loads.bind (Returns.ret P _))
  | cons n ms =>
    have nonNull := dvd_trans (dvd_mul_right _ _) own
    have test := tests n (sub List.mem_cons_self)
    cases hf : f n with
    | true =>
      left
      refine Returns.nonNull nonNull fun nonNull => loads.bind (Returns.neg nonNull ?_)
      simp only [before, List.takeWhile_cons, hf] at test ⊢
      exact (readNode_returns own).bind (test.bind (Returns.ret P _))
    | false =>
      right
      refine ⟨n, ms, .after n.addr, rfl, ?_,
        ⟨(readNode_returns own).bind (Returns.ret P _),
          fun m hm => sub (List.mem_cons_of_mem n hm)⟩, ?_⟩
      · rw [hf] at test
        refine Returns.nonNull nonNull fun nonNull => loads.bind (Returns.neg nonNull ?_)
        exact (readNode_returns own).bind (test.bind (Returns.ret P _))
      · simp only [before, List.takeWhile_cons, hf]
        rfl

/-- The first node that was not gone past. -/
theorem address_find (ns : List (Node D G)) :
    address (ns.find? f) = first (ns.dropWhile fun n => !f n) 0 := by
  induction ns with
  | nil => rfl
  | cons n ns ih =>
    cases hf : f n with
    | true => simp [hf, address]
    | false => simp [hf, ih]

/-- The link the search has stopped at leads to the first match. -/
theorem loadSlot_returns (ns : List (Node D G)) {head : Prog V Ptr} (own : cells L ns 0 ∣ P)
    (heads : Returns P head (first ns 0)) :
    Returns P (load L head (lastSlot .head (before f ns))) (address (ns.find? f)) := by
  have split := List.takeWhile_append_dropWhile (p := fun n => !f n) (l := ns)
  rw [address_find]
  generalize ns.dropWhile (fun n => !f n) = rest at split
  rw [before]
  generalize ns.takeWhile (fun n => !f n) = pre at split
  subst split
  rcases List.eq_nil_or_concat' pre with rfl | ⟨ms, m, rfl⟩
  · exact heads
  · have last : lastSlot .head (ms ++ [m]) = .after m.addr := by simp [lastSlot]
    rw [← List.append_cons] at own
    rw [last]
    refine Returns.bind (Returns.readAs L.view ((cell_dvd_cells ms m rest 0).trans own)
      (L.view_build _ _)) ?_
    exact Returns.ret P _

end Searching

/-! ### What follows a search -/

theorem address_some (n : Node D G) : address (some n) = n.addr := rfl

section Found

variable {α : Type} {P : Assertion V} {f : Node D G → Bool} {c d : Prog V α}
  {ns : List (Node D G)}

/-- A test whether a search has found something. -/
theorem Returns.ifFound {r : α} (own : cells L ns 0 ∣ P)
    (none : ns.find? f = none → Returns P c r)
    (some : ∀ n, ns.find? f = some n → Returns P d r) :
    Returns P (if address (ns.find? f) = 0 then c else d) r := by
  cases found : ns.find? f with
  | none => exact Returns.pos rfl (none found)
  | some n =>
    obtain ⟨pre, post, rfl, -⟩ := find?_split found
    refine Returns.nonNull ((cell_dvd_cells pre n post 0).trans own) fun nonNull => ?_
    exact Returns.neg nonNull (some n found)

/-- Reading the node that was found. -/
theorem readFound {n : Node D G} (own : cells L ns 0 ∣ P) (found : ns.find? f = some n) :
    ∃ link, Returns P (readNode L n.addr) (link, n.data) := by
  obtain ⟨pre, post, rfl, -⟩ := find?_split found
  exact ⟨_, Returns.readAs L.view ((cell_dvd_cells pre n post 0).trans own) (L.view_build _ _)⟩

theorem Spec.ifFound {S : α → Assertion V} (own : cells L ns 0 ∣ P)
    (none : ns.find? f = none → Spec P c S)
    (some : ∀ n, ns.find? f = some n → Spec P d S) :
    Spec P (if address (ns.find? f) = 0 then c else d) S := by
  cases found : ns.find? f with
  | none => exact Spec.pos rfl (none found)
  | some n =>
    obtain ⟨pre, post, rfl, -⟩ := find?_split found
    refine Spec.nonNull ((cell_dvd_cells pre n post 0).trans own) fun nonNull => ?_
    exact Spec.neg nonNull (some n found)

end Found

theorem count_returns {P : Assertion V} {ns : List (Node D G)} (own : cells L ns 0 ∣ P) :
    Returns P (count L (first ns 0)) ns.length := by
  suffices walked : Returns P (count L (first ns 0)) (0 + ns.length) by
    rwa [Nat.zero_add] at walked
  refine walk (fun s ms => s.2 = first ms 0) (fun s ms => s.1 + ms.length) ?_
    (s := (0, first ns 0)) rfl own
  rintro ⟨n, _⟩ ms rfl own
  cases ms with
  | nil => exact .inl (Returns.ret P _)
  | cons m ms =>
    refine .inr ⟨m, ms, (n + 1, first ms 0), rfl, ?_, rfl, ?_⟩
    · refine Returns.nonNull (dvd_trans (dvd_mul_right _ _) own) fun nonNull =>
        Returns.neg nonNull ?_
      exact (readNode_returns own).bind (Returns.ret P _)
    · simp only [List.length_cons]
      omega

/-- A fold along a chain folds the list of its nodes. -/
theorem foldFrom_returns {β : Type} {P : Assertion V} {f : β → D → Prog V β}
    {g : β → Node D G → β} (ns : List (Node D G)) (own : cells L ns 0 ∣ P)
    (steps : ∀ n ∈ ns, ∀ b, Returns P (f b n.data) (g b n)) (b : β) :
    Returns P (foldFrom L f b (first ns 0)) (ns.foldl g b) := by
  refine walk (fun s ms => s.2 = first ms 0 ∧ ms ⊆ ns) (fun s ms => ms.foldl g s.1) ?_
    (s := (b, first ns 0)) ⟨rfl, List.Subset.refl ns⟩ own
  rintro ⟨b, _⟩ ms ⟨rfl, sub⟩ own
  cases ms with
  | nil => exact .inl (Returns.ret P _)
  | cons m ms =>
    refine .inr ⟨m, ms, (g b m, first ms 0), rfl, ?_,
      ⟨rfl, fun n hn => sub (List.mem_cons_of_mem m hn)⟩, rfl⟩
    refine Returns.nonNull (dvd_trans (dvd_mul_right _ _) own) fun nonNull =>
      Returns.neg nonNull ?_
    exact (readNode_returns own).bind ((steps m (sub List.mem_cons_self) b).bind (Returns.ret P _))

/-! ## Changing a chain -/

/-- Linking the last of some nodes to something else. -/
theorem setLink_spec (ms : List (Node D G)) (m : Node D G) (q q' : Ptr) :
    Spec (cells L (ms ++ [m]) q) (setLink L m.addr q') fun _ => cells L (ms ++ [m]) q' := by
  simp only [cells_append, cells, first_nil, first_cons, mul_one,
    mul_comm (cells L ms m.addr)]
  refine Spec.look (Returns.readAs L.view (dvd_mul_right _ _) (L.view_build _ _)) ?_
  exact (Spec.write m.addr _ _).frame _

theorem atLeast_chain (ns : List (Node D G)) (P : Assertion V) :
    AtLeast ns.length (P * cells L ns 0) := by
  rw [mul_comm]
  exact atLeast_cells ns 0 P

/-- Reversing in place reverses the list of nodes. -/
theorem reverse_spec (ns : List (Node D G)) :
    Spec (cells L ns 0) (reverse L (first ns 0)) fun p =>
      fact (p = first ns.reverse 0) * cells L ns.reverse 0 := by
  have bound : AtLeast ns.length (cells L ns 0) := by
    rw [← one_mul (cells L ns 0)]
    exact atLeast_chain ns 1
  refine Spec.loop bound fun fuel enough => ?_
  -- What is reversed already stands before the nodes still to come.
  suffices ∀ done fuel, ns.length < fuel →
      Spec (cells L done 0 * cells L ns 0)
        (iterate (fun s : Ptr × Ptr =>
          if s.2 = 0 then pure (.leave s.1)
          else do
            let (next, data) ← readNode L s.2
            write s.2 (L.build s.1 data)
            pure (.again (s.2, next))) fuel (first done 0, first ns 0))
        (fun p => fact (p = first (ns.reverse ++ done) 0) *
          cells L (ns.reverse ++ done) 0) by
    have all := this [] fuel enough
    rwa [cells_nil, one_mul, List.append_nil] at all
  clear bound enough fuel
  induction ns with
  | nil =>
    intro done fuel enough
    obtain ⟨fuel, rfl⟩ := Nat.exists_eq_succ_of_ne_zero (by omega : fuel ≠ 0)
    refine Spec.leave (x := first done 0) (Spec.pos rfl ?_)
    refine Spec.exactly _ ?_
    simp [fact_of]
  | cons n ns ih =>
    intro done fuel enough
    obtain ⟨fuel, rfl⟩ := Nat.exists_eq_succ_of_ne_zero (by omega : fuel ≠ 0)
    have own : cells L (n :: ns) 0 ∣ cells L done 0 * cells L (n :: ns) 0 := dvd_mul_left _ _
    refine Spec.again (n.addr, first ns 0) (cells L (n :: done) 0 * cells L ns 0) ?_ ?_
    · refine Spec.nonNull (dvd_trans (dvd_mul_right _ _) own) fun nonNull => Spec.neg nonNull ?_
      refine Spec.look (readNode_returns own) ?_
      refine Spec.step (Spec.write n.addr (L.build (first ns 0) n.data) _)
        (F := cells L done 0 * cells L ns 0) ?_ fun _ => ?_
      · rw [cells]
        ac_rfl
      · refine Spec.exactly _ ?_
        rw [cells, mul_assoc]
    · rw [List.reverse_cons, List.append_assoc]
      exact ih (n :: done) fuel (by simpa using enough)

/-- Freeing a chain, and what its nodes own, leaves nothing of it. -/
theorem freeFrom_spec (release : D → Prog V Unit) (owned : Node D G → Assertion V)
    (ns : List (Node D G)) (releases : ∀ n ∈ ns, Spec (owned n) (release n.data) fun _ => 1) :
    Spec (cells L ns 0 * (ns.map owned).prod) (freeFrom L release (first ns 0)) fun _ => 1 := by
  refine Spec.loop (atLeast_cells ns 0 _) fun fuel enough => ?_
  induction ns generalizing fuel with
  | nil =>
    obtain ⟨fuel, rfl⟩ := Nat.exists_eq_succ_of_ne_zero (by omega : fuel ≠ 0)
    refine Spec.leave (x := ()) (Spec.pos rfl ?_)
    exact Spec.exactly _ (by simp)
  | cons n ns ih =>
    obtain ⟨fuel, rfl⟩ := Nat.exists_eq_succ_of_ne_zero (by omega : fuel ≠ 0)
    rw [List.map_cons, List.prod_cons]
    have own : cells L (n :: ns) 0 ∣
        cells L (n :: ns) 0 * (owned n * (ns.map owned).prod) := dvd_mul_right _ _
    have rest :=
      ih (fun m hm => releases m (List.mem_cons_of_mem n hm)) fuel (by simpa using enough)
    refine Spec.again (first ns 0) _ ?_ rest
    refine Spec.nonNull (dvd_trans (dvd_mul_right _ _) own) fun nonNull => Spec.neg nonNull ?_
    refine Spec.look (readNode_returns own) ?_
    refine Spec.step (releases n List.mem_cons_self)
      (F := cells L (n :: ns) 0 * (ns.map owned).prod) (by ac_rfl) fun _ => ?_
    refine Spec.step (Spec.free n.addr (L.build (first ns 0) n.data))
      (F := cells L ns 0 * (ns.map owned).prod) ?_ fun _ => ?_
    · rw [cells, one_mul, mul_assoc]
    · exact Spec.exactly _ (one_mul _)

end Linked
