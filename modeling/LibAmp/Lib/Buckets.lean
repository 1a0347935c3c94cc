import Mathlib.Algebra.BigOperators.Fin
import Mathlib.Data.Finmap
import Mathlib.Data.List.FinRange
import Mathlib.Logic.Function.Basic

/-!
# Chained hash tables

A table is an array of chains. An entry sits in the chain its key hashes to, and a chain holds
a key at most once. A lookup takes the first match of one chain; an insertion replaces the
first match in place or pushes a new head; a removal unlinks the first match. Under `WF` these
are the operations of the finite map `toFinmap`.
-/

namespace Buckets

variable {n : Nat} {E K V : Type}

/-- Apply `f` to the first entry satisfying `p`. -/
def modifyFirst (p : E → Bool) (f : E → E) : List E → List E
  | [] => []
  | e :: es => if p e then f e :: es else e :: modifyFirst p f es

theorem modifyFirst_append {p : E → Bool} {f : E → E} {pre post : List E} {e : E}
    (passed : ∀ x ∈ pre, p x = false) (hit : p e = true) :
    modifyFirst p f (pre ++ e :: post) = pre ++ f e :: post := by
  induction pre with
  | nil => simp [modifyFirst, hit]
  | cons x pre ih =>
    have skip : p x = false := passed x List.mem_cons_self
    simp [modifyFirst, skip, ih fun y hy => passed y (List.mem_cons_of_mem x hy)]

/-- All entries, bucket by bucket and in chain order. -/
def entries (b : Fin n → List E) : List E := (List.finRange n).flatMap b

/-- Every entry is in the bucket of its key, and no chain repeats a key. -/
structure WF (key : E → K) (h : K → Fin n) (b : Fin n → List E) : Prop where
  placed : ∀ i, ∀ e ∈ b i, h (key e) = i
  nodup : ∀ i, ((b i).map key).Nodup

/-- The finite map a table stands for. -/
def toFinmap [DecidableEq K] (key : E → K) (val : E → V) (b : Fin n → List E) :
    Finmap (fun _ : K => V) :=
  ((entries b).map fun e => (⟨key e, val e⟩ : Sigma fun _ : K => V)).toFinmap

@[simp] theorem mem_entries {b : Fin n → List E} {e : E} : e ∈ entries b ↔ ∃ i, e ∈ b i := by
  simp [entries]

theorem entries_map {E' : Type} (b : Fin n → List E) (f : E → E') :
    entries (fun i => (b i).map f) = (entries b).map f := by
  simp only [entries, List.map_flatMap]

/-! ## Chains -/

section Chain

variable [DecidableEq K] {key : E → K} {k : K} {l : List E}

theorem find?_eq_some_iff (hl : (l.map key).Nodup) {e : E} :
    l.find? (fun x => key x = k) = some e ↔ e ∈ l ∧ key e = k := by
  induction l with
  | nil => simp
  | cons a l ih =>
    obtain ⟨ha, hl⟩ := List.nodup_cons.1 hl
    by_cases hk : key a = k
    · have : ∀ x ∈ l, key x ≠ k := fun x hx h => ha (List.mem_map.2 ⟨x, hx, h.trans hk.symm⟩)
      grind
    · simp [hk, ih hl]
      grind

/-- In a chain without repeated keys, unlinking the first match drops exactly the entries
with that key. -/
theorem eraseP_eq_filter (hl : (l.map key).Nodup) :
    l.eraseP (fun x => key x = k) = l.filter (fun x => key x ≠ k) := by
  induction l with
  | nil => simp
  | cons a l ih =>
    obtain ⟨ha, hl⟩ := List.nodup_cons.1 hl
    by_cases hk : key a = k
    · have hne : ∀ x ∈ l, key x ≠ k := fun x hx h => ha (List.mem_map.2 ⟨x, hx, h.trans hk.symm⟩)
      simp only [hk, decide_true, List.eraseP_cons_of_pos, ne_eq, not_true_eq_false,
        decide_false, Bool.false_eq_true, not_false_eq_true, List.filter_cons_of_neg]
      exact (List.filter_eq_self.2 (by simpa using hne)).symm
    · simp [hk, ih hl]

variable {f : E → E}

/-- Replacing the first match keeps the list of keys. -/
theorem map_key_modifyFirst (hf : ∀ e, key e = k → key (f e) = k) :
    (modifyFirst (fun x => key x = k) f l).map key = l.map key := by
  induction l with
  | nil => rfl
  | cons a l ih =>
    by_cases hk : key a = k
    · simp [modifyFirst, hk, hf a hk]
    · simp [modifyFirst, hk, ih]

@[simp] theorem length_modifyFirst {p : E → Bool} : (modifyFirst p f l).length = l.length := by
  induction l with
  | nil => rfl
  | cons a l ih => by_cases hp : p a <;> simp [modifyFirst, hp, ih]

theorem find?_modifyFirst_self (hf : ∀ e, key e = k → key (f e) = k) :
    (modifyFirst (fun x => key x = k) f l).find? (fun x => key x = k) =
      (l.find? (fun x => key x = k)).map f := by
  induction l with
  | nil => rfl
  | cons a l ih =>
    by_cases hk : key a = k
    · simp [modifyFirst, hk, hf a hk]
    · simp [modifyFirst, hk, ih]

theorem find?_modifyFirst_ne {k' : K} (hne : k' ≠ k) (hf : ∀ e, key e = k → key (f e) = k) :
    (modifyFirst (fun x => key x = k) f l).find? (fun x => key x = k') =
      l.find? (fun x => key x = k') := by
  induction l with
  | nil => rfl
  | cons a l ih =>
    by_cases hk : key a = k
    · simp [modifyFirst, hk, hf a hk, hne.symm]
    · simp [modifyFirst, hk, List.find?_cons, ih]

end Chain

/-! ## Tables -/

section Table

variable {key : E → K} {val : E → V} {h : K → Fin n} {b : Fin n → List E} {k : K}

theorem WF.empty : WF key h (fun _ : Fin n => ([] : List E)) :=
  ⟨by simp, by simp⟩

/-- No key occurs twice in the whole table. -/
theorem WF.nodup_entries (wf : WF key h b) : ((entries b).map key).Nodup := by
  unfold entries
  rw [List.map_flatMap, List.nodup_flatMap]
  refine ⟨fun i _ => wf.nodup i, (List.nodup_finRange n).imp ?_⟩
  intro i j hij x hx hy
  obtain ⟨e, he, rfl⟩ := List.mem_map.1 hx
  obtain ⟨e', he', hk⟩ := List.mem_map.1 hy
  exact hij ((wf.placed i e he).symm.trans (hk ▸ wf.placed j e' he'))

/-- Changing one chain changes the number of entries as it changes that chain's length. -/
theorem length_entries_update {i : Fin n} {l : List E} :
    (entries (Function.update b i l)).length + (b i).length =
      (entries b).length + l.length := by
  have sum (c : Fin n → List E) : (entries c).length = ∑ j, (c j).length := by
    simp [entries, List.length_flatMap, List.sum_ofFn.symm, List.ofFn_eq_map]
  rw [sum, sum, ← Finset.add_sum_erase _ _ (Finset.mem_univ i),
    ← Finset.add_sum_erase _ (fun j => (b j).length) (Finset.mem_univ i)]
  have rest : ∑ j ∈ Finset.univ.erase i, (Function.update b i l j).length =
      ∑ j ∈ Finset.univ.erase i, (b j).length :=
    Finset.sum_congr rfl fun j hj => by
      rw [Function.update_of_ne (Finset.ne_of_mem_erase hj)]
  rw [rest, Function.update_self]
  omega

/-- A chain may be replaced by one with entries of the same bucket and no repeated key. -/
theorem WF.update (wf : WF key h b) {i : Fin n} {l : List E}
    (placed : ∀ e ∈ l, h (key e) = i) (nodup : (l.map key).Nodup) :
    WF key h (Function.update b i l) := by
  constructor
  · intro j e he
    by_cases hj : j = i
    · subst hj
      rw [Function.update_self] at he
      exact placed e he
    · rw [Function.update_of_ne hj] at he
      exact wf.placed j e he
  · intro j
    by_cases hj : j = i
    · subst hj
      rwa [Function.update_self]
    · rw [Function.update_of_ne hj]
      exact wf.nodup j

variable [DecidableEq K]

/-- Looking a key up in its own bucket finds it wherever it is in the table. -/
theorem WF.find?_iff (wf : WF key h b) {e : E} :
    (b (h k)).find? (fun x => key x = k) = some e ↔ e ∈ entries b ∧ key e = k := by
  rw [find?_eq_some_iff (wf.nodup _), mem_entries]
  constructor
  · rintro ⟨he, hk⟩
    exact ⟨⟨_, he⟩, hk⟩
  · rintro ⟨⟨i, he⟩, rfl⟩
    exact ⟨(wf.placed i e he).symm ▸ he, rfl⟩

theorem dlookup_of_nodup {l : List E} (hl : (l.map key).Nodup) :
    (l.map fun e => (⟨key e, val e⟩ : Sigma fun _ : K => V)).dlookup k =
      (l.find? (fun x => key x = k)).map val := by
  induction l with
  | nil => rfl
  | cons a l ih =>
    by_cases hk : key a = k
    · subst hk
      simp
    · have skip := List.dlookup_cons_ne (β := fun _ => V)
        (l.map fun e => ⟨key e, val e⟩) ⟨key a, val a⟩ (Ne.symm hk)
      simp [hk, skip, ih (List.nodup_cons.1 hl).2]

/-- Searching one bucket is searching the whole table. -/
theorem WF.find?_entries (wf : WF key h b) :
    (entries b).find? (fun x => key x = k) = (b (h k)).find? (fun x => key x = k) := by
  ext e
  rw [wf.find?_iff, find?_eq_some_iff wf.nodup_entries]

/-- The table's lookup is the map's lookup. -/
theorem WF.lookup_toFinmap (wf : WF key h b) :
    (toFinmap key val b).lookup k = ((b (h k)).find? (fun x => key x = k)).map val := by
  rw [toFinmap, Finmap.dlookup_list_toFinmap, dlookup_of_nodup wf.nodup_entries,
    wf.find?_entries]

/-- The number of entries is the number of keys of the map. -/
theorem WF.card_keys (wf : WF key h b) :
    (toFinmap key val b).keys.card = (entries b).length := by
  have : (toFinmap key val b).keys = ((entries b).map key).toFinset := by
    ext k
    rw [Finmap.mem_keys, toFinmap, Finmap.mem_list_toFinmap]
    simp
  rw [this, List.toFinset_card_of_nodup wf.nodup_entries, List.length_map]

/-- The bindings of the map are the entries of the table, each once. -/
theorem WF.entries_toFinmap (wf : WF key h b) :
    (toFinmap key val b).entries =
      (((entries b).map fun e => (⟨key e, val e⟩ : Sigma fun _ : K => V)) :
        Multiset (Sigma fun _ : K => V)) := by
  have dedup (l : List (Sigma fun _ : K => V)) (nodup : l.NodupKeys) : l.dedupKeys = l := by
    induction l with
    | nil => rfl
    | cons a l ih =>
      rw [List.dedupKeys_cons, ih (List.nodupKeys_of_nodupKeys_cons nodup), List.kinsert_def,
        List.kerase_of_notMem_keys (List.nodupKeys_cons.1 nodup).1]
  have nodup : ((entries b).map fun e => (⟨key e, val e⟩ : Sigma fun _ : K => V)).NodupKeys := by
    rw [List.NodupKeys, List.keys, List.map_map]
    exact wf.nodup_entries
  rw [toFinmap, List.toFinmap, AList.toFinmap_entries, AList.entries_toAList, dedup _ nodup]

/-- What holds of every entry holds of every binding of the map, and the other way round. -/
theorem WF.forall_entries (wf : WF key h b) {P : K → V → Prop} :
    (∀ e ∈ entries b, P (key e) (val e)) ↔
      ∀ k v, (toFinmap key val b).lookup k = some v → P k v := by
  constructor
  · intro all k v found
    rw [wf.lookup_toFinmap] at found
    obtain ⟨e, he, rfl⟩ := Option.map_eq_some_iff.1 found
    obtain ⟨mem, rfl⟩ := wf.find?_iff.1 he
    exact all e mem
  · intro all e he
    apply all
    rw [wf.lookup_toFinmap, wf.find?_iff.2 ⟨he, rfl⟩, Option.map_some]

/-- A map all of whose bindings another one has, which has no more keys, is that other map. -/
theorem eq_of_lookup_of_card_le {m₁ m₂ : Finmap (fun _ : K => V)}
    (sub : ∀ k v, m₁.lookup k = some v → m₂.lookup k = some v)
    (card : m₂.keys.card ≤ m₁.keys.card) : m₁ = m₂ := by
  have keys : m₁.keys ⊆ m₂.keys := by
    intro k hk
    obtain ⟨v, hv⟩ := Finmap.mem_iff.1 (Finmap.mem_keys.1 hk)
    exact Finmap.mem_keys.2 (Finmap.mem_iff.2 ⟨v, sub k v hv⟩)
  have same : m₁.keys = m₂.keys := Finset.eq_of_subset_of_card_le keys card
  apply Finmap.ext_lookup
  intro k
  cases found : m₁.lookup k with
  | some v => exact (sub k v found).symm
  | none =>
    have absent : k ∉ m₁ := Finmap.lookup_eq_none.1 found
    rw [← Finmap.mem_keys, same, Finmap.mem_keys] at absent
    exact (Finmap.lookup_eq_none.2 absent).symm

@[simp] theorem toFinmap_empty :
    toFinmap key val (fun _ : Fin n => ([] : List E)) = ∅ := by
  have : entries (fun _ : Fin n => ([] : List E)) = [] := by simp [entries]
  rw [toFinmap, this]
  rfl

/-- A lookup the new chain answers as the old one did is unchanged in the whole table. -/
theorem find?_update {k' : K} {l : List E}
    (hl : l.find? (fun x => key x = k') = (b (h k)).find? (fun x => key x = k')) :
    (Function.update b (h k) l (h k')).find? (fun x => key x = k') =
      (b (h k')).find? (fun x => key x = k') := by
  by_cases hb : h k' = h k
  · rw [hb, Function.update_self, hl]
  · rw [Function.update_of_ne hb]

/-! ## The three changes to a table -/

/-- Pushing a new head for an absent key. -/
theorem WF.push (wf : WF key h b) {e : E}
    (absent : (b (h (key e))).find? (fun x => key x = key e) = none) :
    WF key h (Function.update b (h (key e)) (e :: b (h (key e)))) := by
  refine wf.update ?_ ?_
  · intro x hx
    rcases List.mem_cons.1 hx with rfl | hx
    · rfl
    · exact wf.placed _ x hx
  · rw [List.map_cons, List.nodup_cons]
    refine ⟨?_, wf.nodup _⟩
    intro hm
    obtain ⟨x, hx, hk⟩ := List.mem_map.1 hm
    simpa [hk] using List.find?_eq_none.1 absent x hx

theorem WF.toFinmap_push (wf : WF key h b) {e : E}
    (absent : (b (h (key e))).find? (fun x => key x = key e) = none) :
    toFinmap key val (Function.update b (h (key e)) (e :: b (h (key e)))) =
      (toFinmap key val b).insert (key e) (val e) := by
  apply Finmap.ext_lookup
  intro k'
  rw [(wf.push absent).lookup_toFinmap]
  by_cases hk : k' = key e
  · subst hk
    simp
  · rw [Finmap.lookup_insert_of_ne _ hk, wf.lookup_toFinmap,
      find?_update (by simp [Ne.symm hk])]

/-- Replacing the first match of `k` in place. -/
theorem WF.modify (wf : WF key h b) {f : E → E} (hf : ∀ e, key e = k → key (f e) = k) :
    WF key h (Function.update b (h k) (modifyFirst (fun x => key x = k) f (b (h k)))) := by
  have keys := map_key_modifyFirst (l := b (h k)) hf
  refine wf.update ?_ (keys ▸ wf.nodup _)
  intro e he
  have : key e ∈ (b (h k)).map key := keys ▸ List.mem_map_of_mem he
  obtain ⟨x, hx, hk⟩ := List.mem_map.1 this
  exact hk ▸ wf.placed _ x hx

theorem WF.toFinmap_modify (wf : WF key h b) {f : E → E} {v : V}
    (hf : ∀ e, key e = k → key (f e) = k ∧ val (f e) = v)
    (present : ((b (h k)).find? (fun x => key x = k)).isSome) :
    toFinmap key val
        (Function.update b (h k) (modifyFirst (fun x => key x = k) f (b (h k)))) =
      (toFinmap key val b).insert k v := by
  have hkey : ∀ e, key e = k → key (f e) = k := fun e he => (hf e he).1
  apply Finmap.ext_lookup
  intro k'
  rw [(wf.modify hkey).lookup_toFinmap]
  by_cases hk : k' = k
  · subst hk
    obtain ⟨e, he⟩ := Option.isSome_iff_exists.1 present
    have hek : key e = k' := by simpa using List.find?_some he
    rw [Function.update_self, find?_modifyFirst_self hkey, he, Finmap.lookup_insert]
    simp [(hf e hek).2]
  · rw [Finmap.lookup_insert_of_ne _ hk, wf.lookup_toFinmap,
      find?_update (find?_modifyFirst_ne hk hkey)]

/-- Unlinking the first match of `k`. -/
theorem WF.erase (wf : WF key h b) :
    WF key h (Function.update b (h k) ((b (h k)).eraseP (fun x => key x = k))) := by
  refine wf.update (fun e he => wf.placed _ e (List.mem_of_mem_eraseP he)) ?_
  exact (List.eraseP_sublist.map key).nodup (wf.nodup _)

theorem WF.toFinmap_erase (wf : WF key h b) :
    toFinmap key val
        (Function.update b (h k) ((b (h k)).eraseP (fun x => key x = k))) =
      (toFinmap key val b).erase k := by
  apply Finmap.ext_lookup
  intro k'
  rw [wf.erase.lookup_toFinmap]
  by_cases hk : k' = k
  · subst hk
    rw [Function.update_self, eraseP_eq_filter (wf.nodup _), Finmap.lookup_erase]
    simp [List.find?_filter]
  · rw [Finmap.lookup_erase_ne hk, wf.lookup_toFinmap]
    congr 1
    refine find?_update ?_
    rw [eraseP_eq_filter (wf.nodup _), List.find?_filter]
    congr 1
    funext x
    by_cases hx : key x = k' <;> simp [hx, hk]

end Table

end Buckets
