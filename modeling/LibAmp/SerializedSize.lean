import LibAmp.BoxHistory
import LibAmp.RoundTrip

/-!
# The size of a packet

`amp_serialize_box` adds up an `int` before it writes. Nothing bounds the number of keys of a box,
so the sum can leave the range of an `int`, and what it wraps around to decides what happens next.

## Main results

* `serializedSize_toInt_eq`: the sum is the number of bytes written, wrapped to 32 bits
* `sizeRight_iff`: which boxes are serialized, or refused, as they should be
-/

namespace LibAmp

/-- The bytes the packet of a map takes: each binding with its two length fields, and the two of
the terminator. -/
def wireSize (m : BoxMap) : Nat :=
  2 + (m.entries.map fun e => 4 + strlen e.1 + e.2.length).sum

theorem wireSize_empty : wireSize ∅ = 2 := rfl

theorem wireSize_insert {m : BoxMap} {key : CString} (value : List UInt8) (absent : key ∉ m) :
    wireSize (m.insert key value) = wireSize m + (4 + strlen key + value.length) := by
  simp only [wireSize, Finmap.entries_insert_of_notMem absent, Multiset.map_cons,
    Multiset.sum_cons]
  omega

/-- The second loop writes as many bytes as the map says, in whatever order. -/
theorem AmpBox.WF.length_serializedBytes {box : AmpBox} (wf : box.WF) :
    (serializedBytes box).length = wireSize box.toMap := by
  have each (p : AmpKeyValue) :
      (encodeKeyValue p).length = 4 + strlen p.key + p.value.length := by
    have length := length_encodeKeyValue p
    rw [p.keySize_eq, p.valueSize_eq] at length
    omega
  rw [wireSize, AmpBox.toMap, wf.chains.entries_toFinmap, Multiset.map_coe, Multiset.sum_coe,
    List.map_map, serializedBytes, List.length_append, List.length_flatMap]
  simp only [each, AmpBox.entries, Function.comp_def, List.length_cons, List.length_nil]
  omega

/-- The first loop's sum, as the 32 bits of an `int` hold it. -/
theorem serializedSize_toInt_eq {box : AmpBox} (wf : box.WF) :
    (serializedSize box).toInt = (wireSize box.toMap : Int).bmod (2 ^ 32) := by
  rw [serializedSize_eq, Int32.toInt_ofInt, wf.length_serializedBytes]
  rfl

theorem AmpBox.WF.numKeys_eq_zero_iff_wireSize {box : AmpBox} (wf : box.WF) :
    ampNumKeys box = 0 ↔ wireSize box.toMap = 2 := by
  rw [wf.numKeys_eq_zero_iff, wf.length_serializedBytes]

/-! ## What should come of a box -/

/-- The sum is exact whenever the packet fits an `int` and the bytes written stay inside the
allocation, only a box without keys is called empty, and a packet that does not fit is refused. -/
structure SizeRight (box : AmpBox) : Prop where
  exact : (serializedBytes box).length ≤ intMax →
    (serializedSize box).toInt = (serializedBytes box).length
  inBounds : ∀ mem, ∃ answer mem', ampSerializeBox mem box = .ok (answer, mem')
  empty : ∀ mem, (∃ mem', ampSerializeBox mem box = .ok (.error ampBoxEmpty, mem')) ↔
    ampNumKeys box = 0
  refused : intMax < (serializedBytes box).length →
    ∀ mem, ∃ err mem', ampSerializeBox mem box = .ok (.error err, mem')

/-- A packet that fits is counted exactly. -/
theorem AmpBox.WF.sizeRight_of_fits {box : AmpBox} (wf : box.WF)
    (fits : wireSize box.toMap ≤ intMax) : SizeRight box := by
  rw [← wf.length_serializedBytes] at fits
  have size := serializedSize_toInt fits
  have two := wf.serializedSize_eq_two_iff fits
  have room : ¬ ((serializedBytes box).length : Int) > (serializedSize box).toInt := by omega
  refine ⟨fun _ => size, ?_, ?_, fun long => absurd long (by omega)⟩
  · intro mem
    rw [ampSerializeBox_eq, if_neg room]
    split_ifs <;> exact ⟨_, _, rfl⟩
  · intro mem
    simp only [ampSerializeBox_eq, if_neg room, two]
    by_cases none : ampNumKeys box = 0
    · simp [none]
    · by_cases refused : mem 0 .packet = false ∨ (serializedSize box).toInt < 0
      · simp [none, refused, enomem, ampBoxEmpty]
      · simp [none, refused]

/-- A sum that wraps around to a negative number makes the allocation fail. -/
theorem AmpBox.WF.sizeRight_of_negative {box : AmpBox} (wf : box.WF)
    (long : intMax < wireSize box.toMap) (negative : (serializedSize box).toInt < 0) :
    SizeRight box := by
  have notTwo : serializedSize box ≠ 2 := by
    intro two
    rw [two] at negative
    exact absurd negative (by decide)
  have refused (mem : Mem) : ampSerializeBox mem box = .ok (.error enomem, mem.drop 1) := by
    rw [ampSerializeBox_eq, if_neg notTwo, if_pos (.inr negative)]
  have notEmpty : ampNumKeys box ≠ 0 := by
    rw [Ne, wf.numKeys_eq_zero_iff_wireSize]
    simp only [intMax] at long
    omega
  refine ⟨?_, fun mem => ⟨_, _, refused mem⟩, ?_, fun _ mem => ⟨_, _, refused mem⟩⟩
  · intro fits
    rw [wf.length_serializedBytes] at fits
    omega
  · intro mem
    rw [refused mem]
    simp [notEmpty, enomem, ampBoxEmpty]

/-- The boxes treated as they should be: those whose packet fits an `int`, and those whose packet
does not and whose sum happens to come out negative. -/
theorem sizeRight_iff {box : AmpBox} (built : box.Built) :
    SizeRight box ↔ wireSize box.toMap ≤ intMax ∨ 2 ^ 31 ≤ wireSize box.toMap % 2 ^ 32 := by
  have wf := built.wf
  have size := serializedSize_toInt_eq wf
  rw [Int.bmod_def] at size
  constructor
  · intro right
    by_contra wrong
    obtain ⟨long, small⟩ := not_or.1 wrong
    simp only [intMax] at long
    have wrapped : (serializedSize box).toInt = (wireSize box.toMap % 2 ^ 32 : Nat) := by
      rw [size, if_pos (by omega)]
      omega
    obtain ⟨err, mem', refused⟩ := right.refused (by
      rw [wf.length_serializedBytes, intMax]
      omega) plenty
    have served : ¬ (plenty 0 .packet = false ∨ (serializedSize box).toInt < 0) := by
      rintro (full | negative)
      · cases full
      · omega
    have short : ((serializedBytes box).length : Int) > (serializedSize box).toInt := by
      rw [wf.length_serializedBytes, wrapped]
      omega
    rw [ampSerializeBox_eq, if_neg served, if_pos short] at refused
    by_cases two : serializedSize box = 2
    · rw [if_pos two] at refused
      have empty := (right.empty plenty).1 ⟨plenty, by rw [ampSerializeBox_eq, if_pos two]⟩
      rw [wf.numKeys_eq_zero_iff_wireSize] at empty
      omega
    · rw [if_neg two] at refused
      cases refused
  · rintro (fits | high)
    · exact wf.sizeRight_of_fits fits
    · by_cases fits : wireSize box.toMap ≤ intMax
      · exact wf.sizeRight_of_fits fits
      · apply wf.sizeRight_of_negative (by omega)
        rw [size, if_neg (by omega)]
        omega

/-! ## Boxes with many keys -/

/-- The entries stored one after the other, with memory to spare. -/
def storeAll (l : List (CString × List UInt8)) : List BoxOp :=
  l.map fun e => .put e.1 e.2 e.2.length le_rfl

/-- Storing entries with new keys makes the packet larger by all of them. -/
theorem specHistory_storeAll {l : List (CString × List UInt8)} (m : BoxMap)
    (storable : ∀ e ∈ l, Storable e.1 e.2) (nodup : (l.map Prod.fst).Nodup)
    (fresh : ∀ e ∈ l, e.1 ∉ m) :
    wireSize (specHistory plenty m (storeAll l)).2.1 =
      wireSize m + (l.map fun e => 4 + strlen e.1 + e.2.length).sum := by
  induction l generalizing m with
  | nil => rfl
  | cons e l ih =>
    obtain ⟨⟨pos, keyLe, valueLe⟩, storable⟩ := List.forall_mem_cons.1 storable
    obtain ⟨absent, fresh⟩ := List.forall_mem_cons.1 fresh
    obtain ⟨other, nodup⟩ := List.nodup_cons.1 nodup
    have fresh' : ∀ e' ∈ l, e'.1 ∉ m.insert e.1 e.2 := by
      intro e' he' mem
      rcases Finmap.mem_insert.1 mem with same | mem
      · exact other (List.mem_map.2 ⟨e', he', same⟩)
      · exact fresh e' he' mem
    have rest := ih (m.insert e.1 e.2) storable nodup fresh'
    simp only [storeAll, List.map_cons, specHistory, BoxOp.spec,
      BoxMap.put_plenty pos keyLe valueLe, List.sum_cons] at rest ⊢
    rw [rest, wireSize_insert _ absent]
    omega

/-- Any storable entries with different keys are the contents of some box. -/
theorem exists_built {l : List (CString × List UInt8)}
    (storable : ∀ e ∈ l, Storable e.1 e.2) (nodup : (l.map Prod.fst).Nodup) :
    ∃ box : AmpBox, box.Built ∧
      wireSize box.toMap = 2 + (l.map fun e => 4 + strlen e.1 + e.2.length).sum := by
  obtain ⟨box, run, -, map⟩ := (AmpBox.wf_new hashString).runHistory plenty (storeAll l)
  rw [AmpBox.toMap_new] at run map
  refine ⟨box, ⟨_, _, _, _, run⟩, ?_⟩
  rw [map, specHistory_storeAll ∅ storable nodup fun e _ => Finmap.notMem_empty, wireSize_empty]

/-- A key of three bytes for each number below eight million. -/
def numberedKey (i : Nat) : CString where
  bytes := [.ofNat (1 + i % 200), .ofNat (1 + i / 200 % 200), .ofNat (1 + i / 40000 % 200)]
  nulFree := by
    have notNul (n : Nat) : 0 ≠ UInt8.ofNat (1 + n % 200) := by
      intro h
      have := congrArg UInt8.toNat h
      simp only [UInt8.toNat_ofNat', UInt8.toNat_ofNat] at this
      omega
    simp only [List.mem_cons, List.not_mem_nil, or_false, not_or]
    exact ⟨notNul _, notNul _, notNul _⟩

@[simp] theorem strlen_numberedKey (i : Nat) : strlen (numberedKey i) = 3 := rfl

theorem numberedKey_inj {i j : Nat} (hi : i < 8000000) (hj : j < 8000000)
    (h : numberedKey i = numberedKey j) : i = j := by
  have bytes := congrArg (fun key => key.bytes.map UInt8.toNat) h
  simp only [numberedKey, List.map_cons, List.map_nil, UInt8.toNat_ofNat', List.cons.injEq,
    and_true] at bytes
  omega

/-- A box with `n` keys whose entries take 65536 bytes each. -/
theorem exists_built_wide {n : Nat} (hn : n < 8000000) :
    ∃ box : AmpBox, box.Built ∧ wireSize box.toMap = 2 + n * 65536 := by
  obtain ⟨value, length⟩ : ∃ value : List UInt8, value.length = 65529 :=
    ⟨List.replicate 65529 0, List.length_replicate⟩
  let entry (i : Nat) : CString × List UInt8 := (numberedKey i, value)
  have storable : ∀ e ∈ (List.range n).map entry, Storable e.1 e.2 := by
    intro e he
    obtain ⟨i, -, rfl⟩ := List.mem_map.1 he
    simp [entry, Storable, length, maxKeyLength, maxValueLength]
  have nodup : (((List.range n).map entry).map Prod.fst).Nodup := by
    rw [List.map_map]
    apply List.Nodup.map_on _ List.nodup_range
    intro i hi j hj same
    exact numberedKey_inj ((List.mem_range.1 hi).trans hn) ((List.mem_range.1 hj).trans hn) same
  obtain ⟨box, built, size⟩ := exists_built storable nodup
  refine ⟨box, built, ?_⟩
  have each : (fun e : CString × List UInt8 => 4 + strlen e.1 + e.2.length) ∘ entry =
      fun _ => 65536 := by
    funext i
    simp [entry, length]
  rw [size, List.map_map, each, List.map_const', List.sum_replicate, List.length_range, smul_eq_mul]

/-- With 65537 such keys the sum comes out as 65538 and the second loop writes 4 GiB behind it;
with 65536 it comes out as 2 and the box is called empty. -/
theorem serialized_size_wraps :
    (∃ box : AmpBox, box.Built ∧ ¬ SizeRight box ∧
      ampSerializeBox plenty box = .error .outOfBounds) ∧
    ∃ box : AmpBox, box.Built ∧ ampNumKeys box ≠ 0 ∧
      ampSerializeBox plenty box = .ok (.error ampBoxEmpty, plenty) := by
  constructor
  · obtain ⟨box, built, size⟩ := exists_built_wide (n := 65537) (by decide)
    have sum := serializedSize_toInt_eq built.wf
    rw [size] at sum
    have wrapped : (serializedSize box).toInt = 65538 := sum.trans (by decide)
    have overrun : ampSerializeBox plenty box = .error .outOfBounds := by
      have notTwo : serializedSize box ≠ 2 := by
        intro two
        rw [two] at wrapped
        exact absurd wrapped (by decide)
      rw [ampSerializeBox_eq, if_neg notTwo, if_neg (by simp [plenty, wrapped]),
        if_pos (by rw [built.wf.length_serializedBytes, size, wrapped]; decide)]
    refine ⟨box, built, ?_, overrun⟩
    intro right
    obtain ⟨answer, mem', run⟩ := right.inBounds plenty
    rw [overrun] at run
    cases run
  · obtain ⟨box, built, size⟩ := exists_built_wide (n := 65536) (by decide)
    have sum := serializedSize_toInt_eq built.wf
    rw [size] at sum
    have two : serializedSize box = 2 := Int32.toInt_inj.1 (sum.trans (by decide))
    refine ⟨box, built, ?_, by rw [ampSerializeBox_eq, if_pos two]⟩
    rw [Ne, built.wf.numKeys_eq_zero_iff_wireSize, size]
    decide

/-- A box with two short entries is on the right side of the condition. -/
theorem sizeRight_sampleBox : SizeRight sampleBox :=
  (sizeRight_iff sampleBox_built).2 (.inl (by
    rw [← sampleBox_built.wf.length_serializedBytes]
    decide))

end LibAmp
