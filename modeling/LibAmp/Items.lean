import LibAmp.BoxHistory
import LibAmp.ConsumeSpec
import LibAmp.Lib.Wire

/-!
# The decoder on the items of the wire format

What the decoder does with one record, with the end of a box and with a stream that breaks off,
and from that what it does with the records of a whole box. The keys come off the wire with
their length and are stored as C strings, so a record is stored under the part of its key before
the first NUL, and not at all if that part is empty.
-/

namespace LibAmp

open Wire (Record)

variable {σ : Type} {dispatch : DispatchBox σ} {d : Decoder σ}

/-- The name a key from the wire is stored under. -/
def keyName (key : List UInt8) : CString := .ofBytes key

theorem strlen_keyName_eq_zero {key : List UInt8} (h : key ≠ []) :
    strlen (keyName key) = 0 ↔ key.head? = some 0 := by
  obtain ⟨c, key, rfl⟩ := List.exists_cons_of_ne_nil h
  by_cases hc : c = 0 <;> simp [strlen, keyName, CString.ofBytes, hc]

theorem strlen_keyName_le (key : List UInt8) : strlen (keyName key) ≤ key.length :=
  (List.takeWhile_prefix _).length_le

/-! ## One record -/

variable (dispatch) in
/-- The bytes of a key and its length lead the decoder to the value length. -/
theorem Decoder.run_key {key s : List UInt8} (hd : d.phase = .keyLenHigh)
    (pos : 0 < key.length) (le : key.length ≤ 255) :
    d.run dispatch (Wire.encodeLength key.length ++ key ++ s) =
      Decoder.run dispatch { d with phase := .valLenHigh key } s := by
  have low : UInt8.ofNat key.length ≠ 0 := by
    intro h
    have := congrArg UInt8.toNat h
    simp at this
    omega
  have lowNat : (UInt8.ofNat key.length).toNat = key.length := by
    simp
    omega
  rw [Wire.encodeLength_of_lt (by omega), List.append_assoc, List.cons_append, List.cons_append,
    List.nil_append, run_cons, step, hd]
  simp only [start, ne_eq, not_true_eq_false, ↓reduceIte, Progress.andThen_ongoing]
  rw [run_cons, step]
  simp only [low, ↓reduceIte, Progress.andThen_ongoing, lowNat]
  rw [run_append, run_keyData_rest rfl (by simp) pos]
  rfl

/-- The two bytes of a value length. -/
theorem Decoder.run_valLen {key s : List UInt8} {len : Nat} (hd : d.phase = .valLenHigh key)
    (le : len ≤ 65535) :
    d.run dispatch (Wire.encodeLength len ++ s) =
      Decoder.run dispatch { d with phase := .valData key len [] } s := by
  have high : (UInt8.ofNat (len / 256)).toNat = len / 256 := by
    simp
    omega
  have low : (UInt8.ofNat (len % 256)).toNat = len % 256 := by
    simp
  have sum : len / 256 * 256 + len % 256 = len := by omega
  rw [Wire.encodeLength, List.cons_append, List.cons_append, List.nil_append, run_cons, step, hd]
  simp only [Progress.andThen_ongoing]
  rw [run_cons, step]
  simp only [high, low, sum, Progress.andThen_ongoing]

/-- A whole record is stored, at the latest when the byte after it arrives. -/
theorem Decoder.run_record {r : Record} {s : List UInt8} (hd : d.phase = .keyLenHigh)
    (fits : r.Fits) (more : r.value ≠ [] ∨ s ≠ []) :
    d.run dispatch (Wire.encodeRecord r ++ s) =
      Progress.andThen (d.store r.key r.value) fun d => d.run dispatch s := by
  rw [Wire.encodeRecord, List.append_assoc, List.append_assoc, run_key dispatch hd fits.key_pos
      fits.key_le,
    run_valLen rfl fits.value_le]
  rcases hv : r.value with _ | ⟨c, value⟩
  · exact run_settle rfl (more.resolve_left (absurd hv))
  · rw [run_append, run_valData_rest rfl (by simp) (by simp)]
    rfl

/-- A record without a value that ends the stream is not stored yet. -/
theorem Decoder.run_pendingRecord {r : Record} (hd : d.phase = .keyLenHigh) (fits : r.Fits)
    (noValue : r.value = []) :
    d.run dispatch (Wire.encodeRecord r) =
      .ok (.ongoing { d with phase := .valData r.key 0 [] }) := by
  have run := run_key dispatch (s := Wire.encodeLength 0 ++ []) hd fits.key_pos
    fits.key_le
  rw [run_valLen rfl (by omega)] at run
  simpa [Wire.encodeRecord, noValue] using run

/-! ## The other items -/

theorem Decoder.run_endOfBox {s : List UInt8} (hd : d.phase = .keyLenHigh) :
    d.run dispatch (0 :: 0 :: s) =
      Progress.andThen (d.finishBox dispatch) fun d => d.run dispatch s := by
  rw [run_cons, step, hd]
  simp only [start, ne_eq, not_true_eq_false, ↓reduceIte, Progress.andThen_ongoing]
  rw [run_cons, step]
  rfl

theorem Decoder.run_badKeyLength {high : UInt8} {s : List UInt8} (hd : d.phase = .keyLenHigh)
    (bad : high ≠ 0) :
    d.run dispatch (high :: s) = .ok (.failed ampBadKeySize d.mem d.own) := by
  rw [run_cons, step, hd]
  simp [start, bad]

variable (dispatch) in
/-- A stream that breaks off inside an item leaves the box and the handler alone. -/
theorem Decoder.run_incomplete {s : List UInt8} (hd : d.phase = .keyLenHigh)
    (h : Wire.readItem s = .incomplete) :
    ∃ phase, d.run dispatch s = .ok (.ongoing { d with phase := phase }) := by
  unfold Wire.readItem at h
  split at h
  · exact ⟨_, rfl⟩
  next high s =>
  split at h
  · cases h
  next hhigh =>
  obtain rfl : high = 0 := by simpa using hhigh
  rw [run_cons, step, hd]
  simp only [start, ne_eq, not_true_eq_false, ↓reduceIte, Progress.andThen_ongoing]
  split at h
  · exact ⟨_, rfl⟩
  next low s =>
  rw [run_cons, step]
  split at h
  · cases h
  next hlow =>
  simp only [hlow, ↓reduceIte, Progress.andThen_ongoing]
  split at h
  · next short => exact ⟨_, run_keyData_part rfl (by simpa using short)⟩
  next long =>
  have pos : 0 < low.toNat := Nat.pos_of_ne_zero fun h => hlow (UInt8.toNat_inj.1 h)
  rw [← List.take_append_drop low.toNat s, run_append, run_keyData_rest rfl
    (by simp; omega) (by simpa using pos), Progress.andThen_ongoing]
  split at h
  · next valHigh valLow t hdrop =>
    simp only at h
    split at h
    · next short =>
      simp only [hdrop, run_cons, step, Progress.andThen_ongoing]
      exact ⟨_, run_valData_part rfl (by simpa using short)⟩
    · cases h
  · next hdrop =>
    rcases hs : s.drop low.toNat with _ | ⟨valHigh, _ | ⟨valLow, t⟩⟩
    · exact ⟨_, rfl⟩
    · exact ⟨_, rfl⟩
    · exact absurd hs (hdrop _ _ _)

/-! ## Storing with memory to spare -/

/-- The map a box holds after a record was stored in it. -/
def BoxMap.record (m : BoxMap) (r : Record) : BoxMap := m.insert (keyName r.key) r.value

/-- The map of the records of a box, later ones replacing earlier ones of the same name. -/
def BoxMap.ofRecords (records : List Record) : BoxMap := records.foldl BoxMap.record ∅

/-- With memory to spare a record whose key does not begin with a NUL is stored. -/
theorem Decoder.store_plenty {box : AmpBox} (wf : box.WF) (hbox : d.box = some box)
    (hmem : d.mem = plenty) {r : Record} (fits : r.Fits) (named : r.key.head? ≠ some 0) :
    ∃ box', d.store r.key r.value = .ok (.ongoing ⟨.keyLenHigh, some box', plenty, d.own⟩) ∧
      box'.WF ∧ box'.toMap = box.toMap.record r := by
  have keyNe : r.key ≠ [] := List.ne_nil_of_length_pos fits.key_pos
  have pos : 0 < strlen (keyName r.key) :=
    Nat.pos_of_ne_zero fun h => named ((strlen_keyName_eq_zero keyNe).1 h)
  have le := (strlen_keyName_le r.key).trans fits.key_le
  obtain ⟨box', put, wf', map⟩ := wf.putBuf_plenty (keyName r.key) pos le fits.value_le
  refine ⟨box', ?_, wf', map⟩
  rw [keyName] at put
  simp only [store, hbox, hmem, ampPutBytes, put, ne_eq, not_true_eq_false, ↓reduceIte]

/-- A record whose key begins with a NUL is an error. -/
theorem Decoder.store_nul {r : Record} (fits : r.Fits) (nul : r.key.head? = some 0) :
    d.store r.key r.value = .ok (.failed ampBadKeySize d.mem d.own) := by
  have empty : strlen (.ofBytes r.key) = 0 :=
    (strlen_keyName_eq_zero (List.ne_nil_of_length_pos fits.key_pos)).2 nul
  have code : ¬ ampBadKeySize = 0 := by decide
  simp [store, ampPutBytes, ampPutBuf, empty, code]

variable (dispatch) in
/-- The records of a box, one after the other. -/
theorem Decoder.run_records {records : List Record} (fits : ∀ r ∈ records, r.Fits)
    (named : ∀ r ∈ records, r.key.head? ≠ some 0) {box : AmpBox} (wf : box.WF)
    (hd : d.phase = .keyLenHigh) (hbox : d.box = some box) (hmem : d.mem = plenty)
    {s : List UInt8} (more : s ≠ []) :
    ∃ box', d.run dispatch (records.flatMap Wire.encodeRecord ++ s) =
        Decoder.run dispatch ⟨.keyLenHigh, some box', plenty, d.own⟩ s ∧
      box'.WF ∧ box'.toMap = records.foldl BoxMap.record box.toMap := by
  induction records generalizing d box with
  | nil =>
    refine ⟨box, ?_, wf, rfl⟩
    rw [← hbox, ← hmem, ← hd]
    rfl
  | cons r records ih =>
    obtain ⟨box₁, store, wf₁, map₁⟩ :=
      store_plenty wf hbox hmem (fits r (by simp)) (named r (by simp))
    obtain ⟨box₂, run, wf₂, map₂⟩ := ih (fun r hr => fits r (by simp [hr]))
      (fun r hr => named r (by simp [hr])) wf₁ (d := ⟨.keyLenHigh, some box₁, plenty, d.own⟩)
      rfl rfl rfl
    refine ⟨box₂, ?_, wf₂, ?_⟩
    · rw [List.flatMap_cons, List.append_assoc,
        run_record hd (fits r (by simp)) (.inr (by simp [more])), store,
        Progress.andThen_ongoing, run]
    · rw [map₂, map₁, List.foldl_cons]

/-- The decoder of a fresh proto. -/
def Decoder.fresh (own : σ) : Decoder σ :=
  ⟨.keyLenHigh, some (AmpBox.new hashString), plenty, own⟩

variable (dispatch) in
/-- A whole box: its records are stored and it is dispatched. -/
theorem Decoder.run_box {records : List Record} (fits : ∀ r ∈ records, r.Fits)
    (named : ∀ r ∈ records, r.key.head? ≠ some 0) (own : σ) (s : List UInt8) :
    ∃ box : AmpBox, (fresh own).run dispatch (Wire.encodeBox records ++ s) =
        Progress.andThen (finishBox dispatch ⟨.keyLenHigh, some box, plenty, own⟩)
          (fun d => d.run dispatch s) ∧
      box.WF ∧ box.toMap = BoxMap.ofRecords records := by
  obtain ⟨box, run, wf, map⟩ := run_records dispatch fits named
    (AmpBox.wf_new hashString) (d := fresh own) rfl rfl rfl (s := 0 :: 0 :: s) (by simp)
  refine ⟨box, ?_, wf, by rw [map, AmpBox.toMap_new, BoxMap.ofRecords]⟩
  rw [Wire.encodeBox, List.append_assoc, List.cons_append, List.cons_append, List.nil_append, run,
    run_endOfBox rfl]
  rfl

end LibAmp
