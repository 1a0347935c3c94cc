import LibAmp.Box

/-!
# A box is a finite map

`AmpBox.toMap` is the finite map a box stands for and `AmpBox.WF` the invariant of its chains
and its counter. Every operation of `box.c` is the map operation of the same name, under every
hash function and every pattern of allocation failures.
-/

namespace LibAmp

/-- What a box means: byte strings named by C strings. -/
abbrev BoxMap := Finmap (fun _ : CString => List UInt8)

namespace AmpBox

def toMap (box : AmpBox) : BoxMap := Buckets.toFinmap (·.key) (·.value) box.buckets

/-- Bindings sit in the bucket of their key, no key occurs twice, and `length` counts them. -/
structure WF (box : AmpBox) : Prop where
  chains : Buckets.WF (·.key) box.bucketOf box.buckets
  length_eq : box.length = box.entries.length

theorem wf_new (hash : CString → UInt32) : (AmpBox.new hash).WF :=
  ⟨Buckets.WF.empty, by simp [AmpBox.new, entries, Buckets.entries]⟩

@[simp] theorem toMap_new (hash : CString → UInt32) : (AmpBox.new hash).toMap = ∅ :=
  Buckets.toFinmap_empty

/-- The search condition of the loops, without the C comparison function. -/
theorem cmp_match (key : CString) :
    (fun p : AmpKeyValue => decide (cmpString key p.key = 0)) = fun p => decide (p.key = key) := by
  funext p
  simp [cmpString, eq_comm]

theorem find_eq (box : AmpBox) (key : CString) :
    box.find key = (box.buckets (box.bucketOf key)).find? fun p => p.key = key := by
  rw [find, cmp_match]

namespace WF

variable {box : AmpBox} {key : CString}

/-- The search loop finds the binding the map has for the key. -/
theorem lookup_toMap (wf : box.WF) : box.toMap.lookup key = (box.find key).map (·.value) := by
  rw [toMap, wf.chains.lookup_toFinmap, find_eq]

theorem mem_toMap (wf : box.WF) : key ∈ box.toMap ↔ (box.find key).isSome := by
  rw [← Finmap.lookup_isSome, wf.lookup_toMap, Option.isSome_map]

/-- Every stored key and value is within the limits of the wire format. -/
theorem bounds (wf : box.WF) {value : List UInt8} (h : box.toMap.lookup key = some value) :
    0 < strlen key ∧ strlen key ≤ maxKeyLength ∧ value.length ≤ maxValueLength := by
  rw [wf.lookup_toMap, find_eq] at h
  obtain ⟨p, hp, rfl⟩ := Option.map_eq_some_iff.1 h
  have hk : p.key = key := by simpa using List.find?_some hp
  exact hk ▸ ⟨p.key_pos, p.key_le, p.value_le⟩

/-! ### Reading -/

theorem getBuf (wf : box.WF) :
    ampGetBuf box key =
      match box.toMap.lookup key with
      | some value => .ok value
      | none => .error ampKeyNotFound := by
  rw [wf.lookup_toMap, ampGetBuf]
  cases box.find key <;> rfl

/-- `amp_has_key` also compares the cached length, which equal keys share. -/
theorem hasKey (wf : box.WF) : ampHasKey box key = if key ∈ box.toMap then 1 else 0 := by
  have same : (fun p : AmpKeyValue =>
      decide ((strlen key : Int) = p.keySize ∧ cmpString key p.key = 0)) =
        fun p => decide (cmpString key p.key = 0) := by
    funext p
    simp only [cmpString, strcmp_eq_zero, decide_eq_decide, and_iff_right_iff_imp]
    exact fun h => by rw [p.keySize_eq, h]
  simp only [wf.mem_toMap, ampHasKey, same, AmpBox.find]
  cases (box.buckets (box.bucketOf key)).find? (fun p => cmpString key p.key = 0) <;> rfl

theorem numKeys (wf : box.WF) : ampNumKeys box = box.toMap.keys.card := by
  rw [ampNumKeys, wf.length_eq, toMap, wf.chains.card_keys, entries]

/-! ### Changing -/

theorem unlink (wf : box.WF) (found : (box.find key).isSome) :
    (box.unlink key).WF ∧ (box.unlink key).toMap = box.toMap.erase key := by
  rw [AmpBox.unlink, cmp_match]
  refine ⟨⟨wf.chains.erase, ?_⟩, wf.chains.toFinmap_erase⟩
  obtain ⟨p, hp⟩ := Option.isSome_iff_exists.1 found
  rw [find_eq] at hp
  have hmem := List.mem_of_find?_eq_some hp
  have hk : p.key = key := by simpa using List.find?_some hp
  have shorter := List.length_eraseP_of_mem (p := fun p => decide (p.key = key)) hmem (by simp [hk])
  have pos := List.length_pos_of_mem hmem
  have count := Buckets.length_entries_update (b := box.buckets) (i := box.bucketOf key)
    (l := (box.buckets (box.bucketOf key)).eraseP fun p => p.key = key)
  have len := wf.length_eq
  simp only [entries] at len ⊢
  omega

theorem link (wf : box.WF) {keyval : AmpKeyValue} (absent : box.find keyval.key = none) :
    (box.link keyval).WF ∧
      (box.link keyval).toMap = box.toMap.insert keyval.key keyval.value := by
  rw [find_eq] at absent
  refine ⟨⟨wf.chains.push absent, ?_⟩, wf.chains.toFinmap_push absent⟩
  have count := Buckets.length_entries_update (b := box.buckets)
    (i := box.bucketOf keyval.key) (l := keyval :: box.buckets (box.bucketOf keyval.key))
  have len := wf.length_eq
  simp only [AmpBox.link, entries, List.length_cons] at count len ⊢
  omega

theorem replace (wf : box.WF) {keyval : AmpKeyValue} (found : (box.find keyval.key).isSome) :
    (box.replace keyval).WF ∧
      (box.replace keyval).toMap = box.toMap.insert keyval.key keyval.value := by
  rw [find_eq] at found
  rw [AmpBox.replace, cmp_match]
  refine ⟨⟨wf.chains.modify fun _ _ => rfl, ?_⟩,
    wf.chains.toFinmap_modify (fun _ _ => ⟨rfl, rfl⟩) found⟩
  have count := Buckets.length_entries_update (b := box.buckets)
    (i := box.bucketOf keyval.key)
    (l := Buckets.modifyFirst (fun p => p.key = keyval.key) (fun _ => keyval)
      (box.buckets (box.bucketOf keyval.key)))
  have len := wf.length_eq
  simp only [entries, Buckets.length_modifyFirst] at count len ⊢
  omega

/-- `amp_del_key` erases the key and reports whether it was there. -/
theorem delKey (wf : box.WF) (key : CString) :
    (ampDelKey box key).1.WF ∧ (ampDelKey box key).1.toMap = box.toMap.erase key ∧
      (ampDelKey box key).2 = if key ∈ box.toMap then 0 else -1 := by
  simp only [wf.mem_toMap, ampDelKey]
  rcases hf : box.find key with _ | p
  · refine ⟨wf, ?_, rfl⟩
    apply Finmap.ext_lookup
    intro k
    have absent : key ∉ box.toMap := by simp [wf.mem_toMap, hf]
    by_cases hk : k = key
    · subst hk
      rw [Finmap.lookup_erase, Finmap.lookup_eq_none.2 absent]
    · rw [Finmap.lookup_erase_ne hk]
  · have found : (box.find key).isSome := by simp [hf]
    obtain ⟨hwf, hmap⟩ := wf.unlink found
    exact ⟨hwf, hmap, rfl⟩

end WF

end AmpBox

/-! ## Storing -/

/-- `_amp_put_buf` as an operation on the map, with the allocations it makes. -/
def BoxMap.put (mem : Mem) (m : BoxMap) (key : CString) (buf : List UInt8) (bufSize : Int) :
    AmpError × BoxMap × Mem :=
  if strlen key > maxKeyLength ∨ strlen key = 0 then (ampBadKeySize, m, mem)
  else if bufSize > maxValueLength ∨ bufSize < 0 then (ampBadValSize, m, mem)
  else
    match malloc .keyval mem with
    | (false, mem) => (enomem, m, mem)
    | (true, mem) =>
      if key ∈ m then (0, m.insert key (buf.take bufSize.toNat), mem)
      else
        match malloc .binding mem with
        | (false, mem) => (enomem, m, mem)
        | (true, mem) => (0, m.insert key (buf.take bufSize.toNat), mem)

/-- `_amp_put_buf` refines the map operation and keeps the invariant. -/
theorem AmpBox.WF.putBuf {box : AmpBox} (wf : box.WF) (mem : Mem) (key : CString)
    {buf : List UInt8} {bufSize : Int} (room : bufSize ≤ buf.length) :
    ∃ box', ampPutBuf mem (some box) key buf bufSize =
        .ok ⟨(BoxMap.put mem box.toMap key buf bufSize).1, some box',
          (BoxMap.put mem box.toMap key buf bufSize).2.2⟩ ∧
      box'.WF ∧ box'.toMap = (BoxMap.put mem box.toMap key buf bufSize).2.1 := by
  unfold ampPutBuf BoxMap.put
  by_cases hkey : strlen key > maxKeyLength ∨ strlen key = 0
  · simp only [hkey, ↓reduceDIte, ↓reduceIte]
    exact ⟨box, rfl, wf, rfl⟩
  by_cases hval : bufSize > maxValueLength ∨ bufSize < 0
  · simp only [hkey, hval, ↓reduceDIte, ↓reduceIte]
    exact ⟨box, rfl, wf, rfl⟩
  simp only [hkey, hval, ↓reduceDIte, ↓reduceIte, wf.mem_toMap]
  rcases malloc .keyval mem with ⟨_ | _, mem⟩
  · exact ⟨box, rfl, wf, rfl⟩
  have hbuf : ¬ bufSize > buf.length := by omega
  simp only [hbuf, ↓reduceDIte]
  rcases hf : box.find key with _ | p
  · simp only [Option.isSome_none, Bool.false_eq_true, ↓reduceIte]
    rcases malloc .binding mem with ⟨_ | _, mem⟩
    · exact ⟨box, rfl, wf, rfl⟩
    · exact ⟨_, rfl, wf.link hf⟩
  · simp only [Option.isSome_some, ↓reduceIte]
    exact ⟨_, rfl, wf.replace (by simp [hf])⟩

/-- Why a put of a value that is not too long can fail: the length of the key, or one of the two
allocations. The second one is made for a new key only. -/
def BoxMap.Refused (mem : Mem) (m : BoxMap) (key : CString) : Prop :=
  strlen key = 0 ∨ strlen key > maxKeyLength ∨ mem 0 .keyval = false ∨
    key ∉ m ∧ mem 1 .binding = false

theorem BoxMap.put_refused {mem : Mem} {m : BoxMap} {key : CString} (refused : m.Refused mem key)
    (buf : List UInt8) {n : Nat} (valLe : n ≤ maxValueLength) :
    (m.put mem key buf n).1 ≠ 0 ∧ (m.put mem key buf n).2.1 = m := by
  have okVal : ¬ ((n : Int) > maxValueLength ∨ (n : Int) < 0) := by omega
  have noMemory : enomem ≠ 0 := by decide
  unfold BoxMap.put
  by_cases badKey : strlen key > maxKeyLength ∨ strlen key = 0
  · rw [if_pos badKey]
    exact ⟨show ampBadKeySize ≠ 0 by decide, rfl⟩
  · have alloc : mem 0 .keyval = false ∨ key ∉ m ∧ mem 1 .binding = false := by
      rcases refused with empty | long | alloc
      · exact absurd (.inr empty) badKey
      · exact absurd (.inl long) badKey
      · exact alloc
    rw [if_neg badKey, if_neg okVal]
    simp only [malloc]
    rcases alloc with keyval | ⟨absent, binding⟩
    · simp [keyval, noMemory]
    · cases mem 0 .keyval with
      | false => exact ⟨noMemory, rfl⟩
      | true => simp [absent, binding, noMemory]

theorem BoxMap.put_served {mem : Mem} {m : BoxMap} {key : CString} (served : ¬ m.Refused mem key)
    (buf : List UInt8) {n : Nat} (valLe : n ≤ maxValueLength) :
    (m.put mem key buf n).1 = 0 ∧ (m.put mem key buf n).2.1 = m.insert key (buf.take n) := by
  simp only [BoxMap.Refused, not_or, not_and, Bool.not_eq_false] at served
  obtain ⟨nonempty, short, keyval, binding⟩ := served
  have okKey : ¬ (strlen key > maxKeyLength ∨ strlen key = 0) := by omega
  have okVal : ¬ ((n : Int) > maxValueLength ∨ (n : Int) < 0) := by omega
  unfold BoxMap.put
  rw [if_neg okKey, if_neg okVal]
  simp only [malloc, keyval, Int.toNat_natCast]
  by_cases present : key ∈ m
  · simp [present]
  · simp [present, binding present]

theorem BoxMap.put_plenty_take {m : BoxMap} {key : CString} (buf : List UInt8) {n : Nat}
    (pos : 0 < strlen key) (le : strlen key ≤ maxKeyLength) (valLe : n ≤ maxValueLength) :
    m.put plenty key buf n = (0, m.insert key (buf.take n), plenty) := by
  have okKey : ¬ (strlen key > maxKeyLength ∨ strlen key = 0) := by omega
  have okVal : ¬ ((n : Int) > maxValueLength ∨ (n : Int) < 0) := by omega
  simp only [BoxMap.put, okKey, okVal, ↓reduceIte, malloc_plenty, Int.toNat_natCast, ite_self]

theorem BoxMap.put_plenty {m : BoxMap} {key : CString} {value : List UInt8}
    (pos : 0 < strlen key) (le : strlen key ≤ maxKeyLength)
    (valLe : value.length ≤ maxValueLength) :
    m.put plenty key value value.length = (0, m.insert key value, plenty) := by
  rw [BoxMap.put_plenty_take value pos le valLe, List.take_length]

/-- With memory to spare every key and value within the limits is stored. -/
theorem AmpBox.WF.putBuf_plenty {box : AmpBox} (wf : box.WF) (key : CString)
    {value : List UInt8} (pos : 0 < strlen key) (le : strlen key ≤ maxKeyLength)
    (valLe : value.length ≤ maxValueLength) :
    ∃ box', ampPutBuf plenty (some box) key value value.length = .ok ⟨0, some box', plenty⟩ ∧
      box'.WF ∧ box'.toMap = box.toMap.insert key value := by
  obtain ⟨box', put, wf', map⟩ := wf.putBuf plenty key (le_refl (value.length : Int))
  rw [BoxMap.put_plenty pos le valLe] at put map
  exact ⟨box', put, wf', map⟩

/-- The box after storing a value, with memory to spare; a value that is refused is left out. -/
def AmpBox.add (box : AmpBox) (key : CString) (value : List UInt8) : AmpBox :=
  match ampPutBytes plenty (some box) key value value.length with
  | .ok ⟨_, some box, _⟩ => box
  | _ => box

/-- A key and a value that can be stored. -/
def Storable (key : CString) (value : List UInt8) : Prop :=
  0 < strlen key ∧ strlen key ≤ maxKeyLength ∧ value.length ≤ maxValueLength

instance (key : CString) (value : List UInt8) : Decidable (Storable key value) :=
  inferInstanceAs (Decidable (_ ∧ _ ∧ _))

theorem AmpBox.WF.add {box : AmpBox} (wf : box.WF) {key : CString} {value : List UInt8}
    (storable : Storable key value) :
    ampPutBytes plenty (some box) key value value.length =
        .ok ⟨0, some (box.add key value), plenty⟩ ∧
      (box.add key value).WF ∧ (box.add key value).toMap = box.toMap.insert key value := by
  obtain ⟨box', put, wf', map⟩ := wf.putBuf_plenty key storable.1 storable.2.1 storable.2.2
  have same : box.add key value = box' := by
    simp only [AmpBox.add, ampPutBytes, put]
  exact same ▸ ⟨put, wf', map⟩

/-- A new box with one key in it. -/
def AmpBox.single (key : CString) (value : List UInt8) : AmpBox :=
  (AmpBox.new hashString).add key value

theorem AmpBox.wf_single {key : CString} {value : List UInt8} (storable : Storable key value) :
    (single key value).WF ∧ (single key value).toMap = Finmap.insert key value ∅ := by
  obtain ⟨-, wf, map⟩ := (wf_new hashString).add storable
  exact ⟨wf, by rw [single, map, toMap_new]⟩

end LibAmp
