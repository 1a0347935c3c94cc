import LibAmp.BoxHistory

/-!
# Comparing two boxes

`amp_boxes_equal` counts the keys of both boxes and then looks each binding of the first up in
the second. For boxes built by calls of the API that is equality of the two maps, so neither the
order of the chains nor the past of a box shows.

## Main results

* `boxesEqualLoop_eq`: the loop checks one inclusion
* `boxes_equal_is_map_equality`: the answer depends on the maps alone
-/

namespace LibAmp

/-- The loop of `amp_boxes_equal`. `buf` and `bufSize` keep what the last iteration left in them
when `_amp_get_buf` does not find the key; its return value is not looked at. -/
def boxesEqualLoop (box2 : AmpBox) : Option (List UInt8) → List AmpKeyValue → Except Fault Int
  | _, [] => .ok 1
  | buf, p :: ps =>
    if ampHasKey box2 p.key = 0 then .ok 0
    else
      match (ampGetBuf box2 p.key).toOption.or buf with
      | none => .error .uninitialised
      | some found =>
        if p.valueSize ≠ found.length then .ok 0
        else
          match memcmp p.value found found.length with
          | .error e => .error e
          | .ok c => if c ≠ 0 then .ok 0 else boxesEqualLoop box2 (some found) ps

def ampBoxesEqual (box box2 : AmpBox) : Except Fault Int :=
  if ampNumKeys box ≠ ampNumKeys box2 then .ok 0
  else boxesEqualLoop box2 none box.entries

/-! ## One inclusion -/

/-- Every binding visited must be in the second box with the same value. -/
theorem boxesEqualLoop_eq {box2 : AmpBox} (wf : box2.WF) (ps : List AmpKeyValue)
    (buf : Option (List UInt8)) :
    boxesEqualLoop box2 buf ps =
      .ok (if ∀ p ∈ ps, box2.toMap.lookup p.key = some p.value then 1 else 0) := by
  induction ps generalizing buf with
  | nil => simp [boxesEqualLoop]
  | cons p ps ih =>
    cases found : box2.toMap.lookup p.key with
    | none =>
      have absent : p.key ∉ box2.toMap := Finmap.lookup_eq_none.1 found
      simp [boxesEqualLoop, wf.hasKey, absent, found]
    | some value =>
      have present : p.key ∈ box2.toMap := Finmap.mem_of_lookup_eq_some found
      have get : ampGetBuf box2 p.key = .ok value := by rw [wf.getBuf, found]
      simp only [boxesEqualLoop, wf.hasKey, present, ↓reduceIte, get, Except.toOption,
        Option.some_or, one_ne_zero, p.valueSize_eq, List.forall_mem_cons, found]
      by_cases length : p.value.length = value.length
      · obtain ⟨c, compared, zero⟩ := memcmp_eq_zero length
        by_cases same : p.value = value
        · simp only [same, zero.2 same] at compared ⊢
          simp [compared, ih]
        · have differ : c ≠ 0 := fun h => same (zero.1 h)
          simp [length, compared, differ, Ne.symm same]
      · have differ : value ≠ p.value := fun h => length (by rw [h])
        simp [length, differ]

/-! ## Equality of maps -/

/-- All bindings of one map are bindings of the other when the entries visited are. -/
theorem AmpBox.WF.forall_entries {box : AmpBox} (wf : box.WF) (m : BoxMap) :
    (∀ p ∈ box.entries, m.lookup p.key = some p.value) ↔
      ∀ key value, box.toMap.lookup key = some value → m.lookup key = some value :=
  wf.chains.forall_entries (P := fun key value => m.lookup key = some value)

theorem AmpBox.WF.boxesEqual {box box2 : AmpBox} (wf : box.WF) (wf2 : box2.WF) :
    ampBoxesEqual box box2 = .ok (if box.toMap = box2.toMap then 1 else 0) := by
  rw [ampBoxesEqual, wf.numKeys, wf2.numKeys, boxesEqualLoop_eq wf2]
  by_cases same : box.toMap = box2.toMap
  · have all : ∀ p ∈ box.entries, box2.toMap.lookup p.key = some p.value := by
      rw [wf.forall_entries, same]
      intro key value found
      exact found
    simp only [same, ne_eq, not_true_eq_false, ↓reduceIte, if_pos all]
  · by_cases count : box.toMap.keys.card = box2.toMap.keys.card
    · have missing : ¬ ∀ p ∈ box.entries, box2.toMap.lookup p.key = some p.value := by
        intro all
        have sub := (wf.forall_entries _).1 all
        exact same (Buckets.eq_of_lookup_of_card_le sub count.ge)
      simp only [count, ne_eq, not_true_eq_false, ↓reduceIte, missing, same]
    · simp [count, same]

/-- What a history has left in a box is what it leaves in a map. -/
theorem runHistory_map (hash : CString → UInt32) (mem : Mem) (ops : List BoxOp) :
    ∃ box replies mem', runHistory mem (some (AmpBox.new hash)) ops =
        .ok (replies, some box, mem') ∧ box.WF ∧ box.toMap = (specHistory mem ∅ ops).2.1 := by
  obtain ⟨box, run, wf, map⟩ := (AmpBox.wf_new hash).runHistory mem ops
  rw [AmpBox.toMap_new] at run map
  exact ⟨box, _, _, run, wf, map⟩

/-- Two boxes are equal just when every key has the same bytes in both, or is in neither. The
relation is an equivalence, and whatever two histories did, in whatever chains their bindings
lie, the maps the histories end with decide. -/
theorem boxes_equal_is_map_equality :
    (∀ a b : AmpBox, a.Built → b.Built →
      (ampBoxesEqual a b = .ok 1 ↔ ∀ key, a.toMap.lookup key = b.toMap.lookup key) ∧
      (ampBoxesEqual a b = .ok 0 ↔ ¬ ∀ key, a.toMap.lookup key = b.toMap.lookup key)) ∧
    Equivalence (fun a b : {box : AmpBox // box.Built} =>
      ampBoxesEqual a.1 b.1 = .ok 1) ∧
    ∀ (hash₁ hash₂ : CString → UInt32) (mem₁ mem₂ : Mem) (ops₁ ops₂ : List BoxOp),
      ∃ a b replies₁ replies₂ mem₁' mem₂',
        runHistory mem₁ (some (AmpBox.new hash₁)) ops₁ = .ok (replies₁, some a, mem₁') ∧
        runHistory mem₂ (some (AmpBox.new hash₂)) ops₂ = .ok (replies₂, some b, mem₂') ∧
        ampBoxesEqual a b = .ok
          (if (specHistory mem₁ ∅ ops₁).2.1 = (specHistory mem₂ ∅ ops₂).2.1 then 1 else 0) := by
  have ext (a b : BoxMap) : (∀ key, a.lookup key = b.lookup key) ↔ a = b :=
    ⟨Finmap.ext_lookup, fun h key => by rw [h]⟩
  refine ⟨?_, ?_, ?_⟩
  · intro a b built₁ built₂
    rw [built₁.wf.boxesEqual built₂.wf, ext]
    by_cases same : a.toMap = b.toMap <;> simp [same]
  · have one (a b : {box : AmpBox // box.Built}) :
        ampBoxesEqual a.1 b.1 = .ok 1 ↔ a.1.toMap = b.1.toMap := by
      rw [a.2.wf.boxesEqual b.2.wf]
      by_cases same : a.1.toMap = b.1.toMap <;> simp [same]
    simp only [one]
    exact ⟨fun _ => rfl, Eq.symm, Eq.trans⟩
  · intro hash₁ hash₂ mem₁ mem₂ ops₁ ops₂
    obtain ⟨a, replies₁, mem₁', run₁, wf₁, map₁⟩ := runHistory_map hash₁ mem₁ ops₁
    obtain ⟨b, replies₂, mem₂', run₂, wf₂, map₂⟩ := runHistory_map hash₂ mem₂ ops₂
    exact ⟨a, b, replies₁, replies₂, mem₁', mem₂', run₁, run₂,
      by rw [wf₁.boxesEqual wf₂, map₁, map₂]⟩

/-- Two keys stored in one order, and in the other order after one of them was overwritten and
deleted. -/
theorem boxes_equal_other_order :
    ∃ a b : AmpBox, a.Built ∧ b.Built ∧ ampBoxesEqual a b = .ok 1 := by
  obtain ⟨a, b, replies₁, replies₂, mem₁, mem₂, run₁, run₂, equal⟩ :=
    boxes_equal_is_map_equality.2.2 hashString hashString plenty plenty
      [.put Key.ask [1] 1 (by decide), .put Key.answer [2] 1 (by decide)]
      [.put Key.answer [7] 1 (by decide), .put Key.ask [8] 1 (by decide), .del Key.answer,
        .put Key.ask [1] 1 (by decide), .put Key.answer [2] 1 (by decide)]
  refine ⟨a, b, ⟨_, _, _, _, run₁⟩, ⟨_, _, _, _, run₂⟩, equal.trans ?_⟩
  rw [if_pos (by decide)]

end LibAmp
