import Mathlib.Data.Finmap

/-!
# Entries opened and closed by the events of a history

Some events of a history open an entry under a key, others close whatever is open under a key.
A finite map that is updated along with the history holds the entries that are still open.
-/

namespace Ledger

/-- The entries of a list that was prolonged by one. -/
theorem getElem?_concat_eq_some {A : Type} {l : List A} {i : Nat} {a b : A} :
    (l ++ [a])[i]? = some b ↔ l[i]? = some b ∨ i = l.length ∧ a = b := by
  grind

variable {E K C : Type} (opens : E → Option (K × C)) (closes : E → Option K)

/-- Event number `i` of the history has opened an entry that no later event has closed. -/
structure Open (history : List E) (i : Nat) (key : K) (c : C) : Prop where
  opened : history[i]?.bind opens = some (key, c)
  notClosed : ∀ j e, i < j → history[j]? = some e → closes e ≠ some key

variable {opens closes} {history : List E} {e : E} {i i' : Nat} {key key' : K} {c c' : C}

theorem Open.lt_length (h : Open opens closes history i key c) : i < history.length := by
  obtain ⟨e, he, -⟩ := Option.bind_eq_some_iff.1 h.opened
  exact (List.getElem?_eq_some_iff.1 he).1

theorem not_open_nil : ¬ Open opens closes [] i key c := by
  intro h
  simpa using h.lt_length

/-- An entry is open after one more event if it was open and is not closed by it, or if the
event opens it. -/
theorem open_concat :
    Open opens closes (history ++ [e]) i key c ↔
      Open opens closes history i key c ∧ closes e ≠ some key ∨
        i = history.length ∧ opens e = some (key, c) := by
  have before {j : Nat} {e' : E} (h : history[j]? = some e') : j < history.length :=
    (List.getElem?_eq_some_iff.1 h).1
  constructor
  · intro h
    obtain ⟨e', he, opened⟩ := Option.bind_eq_some_iff.1 h.opened
    rcases getElem?_concat_eq_some.1 he with old | ⟨rfl, rfl⟩
    · refine .inl ⟨⟨by rwa [old], ?_⟩, h.notClosed history.length e (before old) (by simp)⟩
      intro j e' hj he'
      exact h.notClosed j e' hj (getElem?_concat_eq_some.2 (.inl he'))
    · exact .inr ⟨rfl, opened⟩
  · rintro (⟨h, notClosed⟩ | ⟨rfl, opened⟩)
    · obtain ⟨e', he, opened⟩ := Option.bind_eq_some_iff.1 h.opened
      have later : (history ++ [e])[i]? = some e' := getElem?_concat_eq_some.2 (.inl he)
      refine ⟨by rwa [later], ?_⟩
      intro j e'' hj he''
      rcases getElem?_concat_eq_some.1 he'' with old | ⟨-, rfl⟩
      · exact h.notClosed j e'' hj old
      · exact notClosed
    · refine ⟨by simpa using opened, ?_⟩
      intro j e' hj he'
      rcases getElem?_concat_eq_some.1 he' with old | ⟨rfl, -⟩
      · exact absurd (before old) (Nat.lt_asymm hj)
      · exact absurd hj (Nat.lt_irrefl _)

/-! ## The map of open entries -/

variable [DecidableEq K]

variable (opens closes) in
/-- The map holds the open entries, and under each key only one is open. -/
structure Tracks (history : List E) (m : Finmap fun _ : K => C) : Prop where
  lookup : ∀ key c, m.lookup key = some c ↔ ∃ i, Open opens closes history i key c
  unique : ∀ {i i' key c c'}, Open opens closes history i key c →
    Open opens closes history i' key c' → i = i'

variable {m : Finmap fun _ : K => C}

theorem Tracks.empty : Tracks opens closes [] ∅ :=
  ⟨fun key c => by simp [not_open_nil], fun h => absurd h not_open_nil⟩

/-- An event that opens nothing, and closes nothing that is open. -/
theorem Tracks.skip (t : Tracks opens closes history m) (opened : opens e = none)
    (closed : ∀ key, closes e = some key → m.lookup key = none) :
    Tracks opens closes (history ++ [e]) m := by
  have same {i key c} : Open opens closes (history ++ [e]) i key c ↔
      Open opens closes history i key c := by
    simp only [open_concat, opened, reduceCtorEq, and_false, or_false, and_iff_left_iff_imp]
    intro h hclosed
    have found := (t.lookup key c).2 ⟨i, h⟩
    rw [closed key hclosed] at found
    cases found
  exact ⟨fun key c => by simp only [same, t.lookup], fun h h' => t.unique (same.1 h) (same.1 h')⟩

/-- An event that opens an entry under a key nothing is open under. -/
theorem Tracks.insert (t : Tracks opens closes history m) (opened : opens e = some (key, c))
    (closed : closes e = none) (absent : m.lookup key = none) :
    Tracks opens closes (history ++ [e]) (m.insert key c) := by
  have concat {i k d} : Open opens closes (history ++ [e]) i k d ↔
      Open opens closes history i k d ∨ i = history.length ∧ key = k ∧ c = d := by
    simp [open_concat, opened, closed]
  have free {i d} : ¬ Open opens closes history i key d := by
    intro h
    rw [(t.lookup key d).2 ⟨i, h⟩] at absent
    cases absent
  refine ⟨?_, ?_⟩
  · intro k d
    by_cases same : k = key
    · subst same
      simp [Finmap.lookup_insert, concat, free]
    · rw [Finmap.lookup_insert_of_ne _ same, t.lookup]
      simp [concat, Ne.symm same]
  · intro i i' k c c' h h'
    rcases concat.1 h with h | ⟨rfl, rfl, -⟩ <;> rcases concat.1 h' with h' | ⟨rfl, same, -⟩
    · exact t.unique h h'
    · exact absurd h (same ▸ free)
    · exact absurd h' free
    · rfl

/-- An event that closes a key. -/
theorem Tracks.erase (t : Tracks opens closes history m) (opened : opens e = none)
    (closed : closes e = some key) : Tracks opens closes (history ++ [e]) (m.erase key) := by
  have concat {i k d} : Open opens closes (history ++ [e]) i k d ↔
      Open opens closes history i k d ∧ key ≠ k := by
    simp [open_concat, opened, closed]
  refine ⟨?_, fun h h' => t.unique (concat.1 h).1 (concat.1 h').1⟩
  intro k d
  by_cases same : k = key
  · subst same
    simp [Finmap.lookup_erase, concat]
  · rw [Finmap.lookup_erase_ne same, t.lookup]
    simp [concat, Ne.symm same]

/-- A key under which nothing is open is not in the map. -/
theorem Tracks.lookup_eq_none (t : Tracks opens closes history m) :
    m.lookup key = none ↔ ∀ i c, ¬ Open opens closes history i key c := by
  rw [Option.eq_none_iff_forall_ne_some]
  simp only [ne_eq, t.lookup, not_exists]
  exact ⟨fun h i c => h c i, fun h c i => h i c⟩

/-! ## How many are open -/

theorem card_insert (absent : m.lookup key = none) :
    (m.insert key c).keys.card = m.keys.card + 1 := by
  have keys : (m.insert key c).keys = Insert.insert key m.keys := by
    ext k
    simp [Finmap.mem_keys]
  rw [keys, Finset.card_insert_of_notMem fun h =>
    Finmap.lookup_eq_none.1 absent (Finmap.mem_keys.1 h)]

theorem card_erase (present : m.lookup key = some c) :
    (m.erase key).keys.card + 1 = m.keys.card := by
  rw [Finmap.keys_erase]
  exact Finset.card_erase_add_one (Finmap.mem_keys.2 (Finmap.mem_iff.2 ⟨c, present⟩))

end Ledger
