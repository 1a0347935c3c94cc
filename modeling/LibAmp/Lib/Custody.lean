import Mathlib.Data.List.Basic

/-!
# Resources that pass through a slot

A component makes one resource after the other and holds at most one of them, in a slot. What
becomes of a resource that leaves the slot is written down. Custody is sound if every resource
made has exactly one owner: the slot, or whatever its one fate says.
-/

/-- Resources are numbered as they are made; `held` is the one in the slot, and `log` says what
became of which. -/
structure Custody (F : Type) where
  made : Nat
  held : Option Nat
  log : List (Nat × F)

namespace Custody

variable {F : Type}

/-- Nothing was made yet. -/
def start : Custody F := ⟨0, none, []⟩

/-- The slot forgets what it holds. -/
def release (c : Custody F) : Custody F := { c with held := none }

def record (c : Custody F) (id : Nat) (fate : F) : Custody F :=
  { c with log := c.log ++ [(id, fate)] }

/-- The slot is overwritten with a new resource, or with nothing if there is none. -/
def fill (c : Custody F) (ok : Bool) : Custody F :=
  if ok then { c with made := c.made + 1, held := some c.made } else c.release

/-- Everything that became of a resource. -/
def fates (c : Custody F) (id : Nat) : List F := (c.log.filter (·.1 = id)).map (·.2)

inductive Owner (F : Type) where
  | slot
  | gone (fate : F)
  deriving DecidableEq, Repr

/-- The owner of a resource, if there is exactly one. -/
def owner (c : Custody F) (id : Nat) : Option (Owner F) :=
  match decide (c.held = some id), c.fates id with
  | true, [] => some .slot
  | false, [fate] => some (.gone fate)
  | _, _ => none

/-- Every resource made has exactly one owner, and nothing happened to any other. -/
structure Sound (c : Custody F) : Prop where
  owned : ∀ id < c.made, (c.owner id).isSome
  fresh : ∀ id, c.made ≤ id → c.held ≠ some id ∧ c.fates id = []

variable {c : Custody F} {id : Nat} {fate : F}

theorem owner_eq_slot : c.owner id = some .slot ↔ c.held = some id ∧ c.fates id = [] := by
  unfold owner
  grind

theorem owner_eq_gone :
    c.owner id = some (.gone fate) ↔ c.held ≠ some id ∧ c.fates id = [fate] := by
  unfold owner
  grind

@[simp] theorem fates_record (c : Custody F) (id k : Nat) (fate : F) :
    (c.record id fate).fates k = c.fates k ++ if k = id then [fate] else [] := by
  by_cases same : k = id
  · simp [fates, record, same]
  · simp [fates, record, same, Ne.symm same]

@[simp] theorem fates_release (c : Custody F) (k : Nat) : c.release.fates k = c.fates k := rfl

@[simp] theorem fates_fill (c : Custody F) (ok : Bool) (k : Nat) :
    (c.fill ok).fates k = c.fates k := by
  cases ok <;> rfl

theorem fill_held (c : Custody F) (ok : Bool) : (c.fill ok).held.isSome = ok := by
  cases ok <;> rfl

/-! ## What leaves the slot -/

/-- The resource in the slot leaves it, and something becomes of it. -/
def settle (c : Custody F) (id : Nat) (fate : F) : Custody F := (c.record id fate).release

theorem settle_owner (slot : c.owner id = some .slot) (fate : F) :
    (c.settle id fate).owner id = some (.gone fate) := by
  obtain ⟨-, none⟩ := owner_eq_slot.1 slot
  refine owner_eq_gone.2 ⟨nofun, ?_⟩
  rw [settle, fates_release, fates_record, none, if_pos rfl]
  rfl

/-- A resource that is overwritten may as well have left before. -/
theorem record_fill (c : Custody F) (id : Nat) (fate : F) (ok : Bool) :
    (c.record id fate).fill ok = (c.settle id fate).fill ok := by
  cases ok <;> rfl

/-- Nothing happens to the others. -/
theorem settle_owner_of_ne (held : c.held = some id) {k : Nat} (other : k ≠ id) (fate : F) :
    (c.settle id fate).owner k = c.owner k := by
  have same : (c.settle id fate).fates k = c.fates k := by
    rw [settle, fates_release, fates_record, if_neg other, List.append_nil]
  have notHeld : ¬ c.held = some k := fun h => other (Option.some.inj (h.symm.trans held))
  have released : ¬ (c.settle id fate).held = some k := nofun
  simp only [owner, same, notHeld, released, decide_false]

namespace Sound

theorem start : (Custody.start : Custody F).Sound := ⟨nofun, fun _ _ => ⟨nofun, rfl⟩⟩

variable (sound : c.Sound)
include sound

theorem lt_made (held : c.held = some id) : id < c.made := by
  by_contra beyond
  exact (sound.fresh id (by omega)).1 held

/-- What is held is owned by the slot alone. -/
theorem owner_held (held : c.held = some id) : c.owner id = some .slot := by
  obtain ⟨owner, owned⟩ := Option.isSome_iff_exists.1 (sound.owned id (sound.lt_made held))
  cases owner with
  | slot => exact owned
  | gone fate => exact absurd held (owner_eq_gone.1 owned).1

theorem settle (held : c.held = some id) (fate : F) : (c.settle id fate).Sound := by
  constructor
  case owned =>
    intro k hk
    by_cases same : k = id
    · rw [same, settle_owner (sound.owner_held held) fate]
      rfl
    · rw [settle_owner_of_ne held same]
      exact sound.owned k hk
  case fresh =>
    intro k hk
    have other : k ≠ id := by
      have := sound.lt_made held
      have : c.made ≤ k := hk
      omega
    refine ⟨nofun, ?_⟩
    rw [Custody.settle, fates_release, fates_record, if_neg other, List.append_nil]
    exact (sound.fresh k hk).2

/-- An empty slot may be overwritten. -/
theorem fill (empty : c.held = none) (ok : Bool) : (c.fill ok).Sound := by
  cases ok with
  | false =>
    have same : c.fill false = c := by
      cases c
      cases empty
      rfl
    exact same ▸ sound
  | true =>
    constructor
    case owned =>
      intro k hk
      by_cases new : k = c.made
      · have slot : (c.fill true).owner k = some .slot :=
          owner_eq_slot.2 ⟨congrArg some new.symm, by
            rw [fates_fill]
            exact (sound.fresh k (Nat.le_of_eq new.symm)).2⟩
        rw [slot]
        rfl
      · have old : k < c.made := by
          have : k < c.made + 1 := hk
          omega
        have notNew : ¬ (c.fill true).held = some k := fun h => new (Option.some.inj h).symm
        have notHeld : ¬ c.held = some k := by simp [empty]
        have same : (c.fill true).owner k = c.owner k := by
          simp only [owner, fates_fill, notNew, notHeld, decide_false]
        rw [same]
        exact sound.owned k old
    case fresh =>
      intro k hk
      have beyond : c.made + 1 ≤ k := hk
      refine ⟨fun h => ?_, ?_⟩
      · have new : c.made = k := Option.some.inj h
        omega
      · rw [fates_fill]
        exact (sound.fresh k (by omega)).2

end Sound

end Custody
