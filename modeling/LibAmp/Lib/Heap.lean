import LibAmp.Lib.Loop
import Mathlib.Data.Finmap
import Mathlib.Data.Finset.Lattice.Fold
import Mathlib.Order.Lattice.Nat

/-!
# Programs over a heap of blocks

A heap is a finite map from addresses to blocks. Reading, writing and freeing fault on an
address without a block, `free` of the null pointer does nothing, and an allocator decides which
requests are served and where the blocks go. A program is a state transformer that can fault.
-/

namespace Heap

/-- An address. `0` is the null pointer. -/
abbrev Ptr := Nat

/-- The blocks allocated, each under its address. -/
abbrev Blocks (V : Type) := Finmap (fun _ : Ptr => V)

/-- The ways to go wrong: an access through the null pointer, an access to a block that is not
allocated (or no longer), a block of another type, a loop that does not end, and `undefined` for
what else is undefined in the language of the program. -/
inductive Fault where
  | null
  | dangling
  | shape
  | stuck
  | undefined
  deriving DecidableEq, Repr

/-- A program that works on the heap. -/
abbrev Prog (V : Type) := StateT (Blocks V) (Except Fault)

variable {V α σ κ : Type}

/-! ## Access -/

def read (p : Ptr) : Prog V V := fun h =>
  if p = 0 then .error .null
  else
    match h.lookup p with
    | some v => .ok (v, h)
    | none => .error .dangling

def write (p : Ptr) (v : V) : Prog V Unit := fun h =>
  if p = 0 then .error .null
  else if p ∈ h then .ok ((), h.insert p v)
  else .error .dangling

def free (p : Ptr) : Prog V Unit := fun h =>
  if p = 0 then .ok ((), h)
  else if p ∈ h then .ok ((), h.erase p)
  else .error .dangling

def fail (e : Fault) : Prog V α := fun _ => .error e

/-- `if (p != NULL) c(p);`. -/
def unlessNull (c : Ptr → Prog V Unit) (p : Ptr) : Prog V Unit :=
  if p = 0 then pure () else c p

/-- What follows a conditional follows each branch. -/
theorem ite_bind {β : Type} {φ : Prop} [Decidable φ] (c d : Prog V α) (k : α → Prog V β) :
    (if φ then c else d) >>= k = if φ then c >>= k else d >>= k := by
  split <;> rfl

/-- Read a block as one of a given type. -/
def readAs {β : Type} (view : V → Option β) (p : Ptr) : Prog V β := do
  match view (← read p) with
  | some b => pure b
  | none => fail .shape

/-! ## Allocation -/

/-- An allocator from some moment on: whether the `n`-th request yet to come is served, and
where a block goes. Every pattern of failures and every placement is of this form. -/
structure Allocator (κ V : Type) where
  serves : Nat → κ → Bool
  place : Nat → Blocks V → Ptr
  fresh : ∀ n h, place n h ∉ h
  nonNull : ∀ n h, place n h ≠ 0

/-- The allocator after `n` requests. -/
def Allocator.drop (a : Allocator κ V) (n : Nat) : Allocator κ V where
  serves k := a.serves (k + n)
  place k := a.place (k + n)
  fresh k := a.fresh (k + n)
  nonNull k := a.nonNull (k + n)

@[simp] theorem Allocator.serves_drop (a : Allocator κ V) (n : Nat) :
    (a.drop n).serves = fun k => a.serves (k + n) := rfl

/-- Ask for a block; the contents are those it is first given. -/
def alloc (a : Allocator κ V) (site : κ) (v : V) : Prog V (Ptr × Allocator κ V) := fun h =>
  if a.serves 0 site then .ok ((a.place 0 h, a.drop 1), h.insert (a.place 0 h) v)
  else .ok ((0, a.drop 1), h)

/-- The allocator that always serves and puts a block above all others. -/
def Allocator.bump : Allocator κ V where
  serves _ _ := true
  place _ h := h.keys.sup id + 1
  fresh _ h := by
    intro mem
    have below : _ ≤ h.keys.sup id := Finset.le_sup (f := id) (Finmap.mem_keys.2 mem)
    exact absurd below (Nat.not_succ_le_self _)
  nonNull _ _ := Nat.succ_ne_zero _

/-! ## Loops -/

open WhileLoop

/-- Run the body at most `fuel` times. -/
def iterate (body : σ → Prog V (Turn σ α)) (fuel : Nat) (s : σ) : Prog V α := fun h =>
  WhileLoop.run .stuck
    (fun t : σ × Blocks V =>
      match body t.1 t.2 with
      | .error e => .error e
      | .ok (.again s, h) => .ok (.again (s, h))
      | .ok (.leave a, h) => .ok (.leave (a, h)))
    fuel (s, h)

/-- A loop that goes through blocks. It takes at most one turn for each block there is when it
is entered, and one more to leave. -/
def loop (body : σ → Prog V (Turn σ α)) (s : σ) : Prog V α := fun h =>
  iterate body (h.keys.card + 1) s h

/-- What follows a turn, with fuel for further ones. -/
def follow (body : σ → Prog V (Turn σ α)) (fuel : Nat) : Turn σ α → Prog V α
  | .again t => iterate body fuel t
  | .leave a => pure a

theorem iterate_succ (body : σ → Prog V (Turn σ α)) (fuel : Nat) (s : σ) :
    iterate body (fuel + 1) s = body s >>= follow body fuel := by
  funext h
  rw [iterate, WhileLoop.run]
  simp only [bind, StateT.bind, Except.bind]
  rcases body s h with e | ⟨t | a, h'⟩ <;> rfl

end Heap
