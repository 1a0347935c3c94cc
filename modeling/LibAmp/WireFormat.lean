import LibAmp.RoundTrip

/-!
# The parser against the wire format

The reference decoder maps whole keys to values. The parser stores each key as a C string, which
ends at its first NUL, and refuses a key that begins with one. `parses_wire_iff` says for which
streams the two agree.
-/

namespace LibAmp

open Wire (Record)

/-! ## The reference maps -/

/-- The map of the records of a box by their whole keys, later records replacing earlier ones. -/
def WireMap.ofRecords (records : List Record) : Finmap (fun _ : List UInt8 => List UInt8) :=
  records.foldl (fun w r => w.insert r.key r.value) ∅

/-- A box holds exactly the entries of a reference map: each of its keys is a C string, and the
box maps it to the same value. -/
structure BoxMap.Denotes (m : BoxMap) (w : Finmap (fun _ : List UInt8 => List UInt8)) : Prop where
  nulFree : ∀ key ∈ w, 0 ∉ key
  lookup : ∀ name : CString, m.lookup name = w.lookup name.bytes

/-- The boxes dispatched and the value returned for a stream are what the wire format says. -/
structure DecodesWire (dispatched : List (Option AmpBox)) (ret : Int) (s : List UInt8) : Prop where
  boxes : List.Forall₂
    (fun m records => ∃ map, m = some map ∧ map.Denotes (WireMap.ofRecords records))
    (seenMaps dispatched) (Wire.decode [] s).boxes
  fails : ret ≠ 0 ↔ (Wire.decode [] s).bad = true
  code : ret ≠ 0 → ret = ampBadKeySize

/-- Feeding the chunks to a proto with a recording handler decodes the wire format. -/
def ParsesWire (proto : AmpProto) (chunks : List (List UInt8)) : Prop :=
  ∃ ret after, feedUntilError recordBoxes ⟨proto.toParser, plenty, []⟩ chunks = .ok (ret, after) ∧
    DecodesWire after.own ret chunks.flatten

/-- No key of a complete box has a NUL in it, and no settled key of an unfinished box begins with
one unless the stream goes on to a key length that is too large. -/
def KeysAreStrings (s : List UInt8) : Prop :=
  (∀ records ∈ (Wire.decode [] s).boxes, ∀ r ∈ records, 0 ∉ r.key) ∧
    ((Wire.decode [] s).bad = true ∨
      ∀ r ∈ (Wire.decode [] s).settled, r.key.head? ≠ some 0)

/-! ## Maps by name and maps by key -/

theorem keyName_bytes {key : List UInt8} (h : 0 ∉ key) : (keyName key).bytes = key :=
  CString.ofBytes_of_nulFree h

/-- A record with a C string for a key changes both maps alike. -/
theorem BoxMap.Denotes.record {m : BoxMap} {w : Finmap (fun _ : List UInt8 => List UInt8)}
    (h : m.Denotes w) {r : Record} (nulFree : 0 ∉ r.key) :
    (m.record r).Denotes (w.insert r.key r.value) := by
  constructor
  · intro key hkey
    rcases Finmap.mem_insert.1 hkey with rfl | hkey
    · exact nulFree
    · exact h.nulFree key hkey
  · intro name
    by_cases hname : name = keyName r.key
    · subst hname
      rw [BoxMap.record, Finmap.lookup_insert, keyName_bytes nulFree, Finmap.lookup_insert]
    · have other : name.bytes ≠ r.key := fun he =>
        hname (CString.ext (by rw [he, keyName_bytes nulFree]))
      rw [BoxMap.record, Finmap.lookup_insert_of_ne _ hname, Finmap.lookup_insert_of_ne _ other,
        h.lookup]

theorem denotes_foldl {records : List Record} (nulFree : ∀ r ∈ records, 0 ∉ r.key) {m : BoxMap}
    {w : Finmap (fun _ : List UInt8 => List UInt8)} (h : m.Denotes w) :
    BoxMap.Denotes (records.foldl BoxMap.record m)
      (records.foldl (fun w r => w.insert r.key r.value) w) := by
  induction records generalizing m w with
  | nil => exact h
  | cons r records ih =>
    exact ih (fun r hr => nulFree r (by simp [hr])) (h.record (nulFree r (by simp)))

/-- Every key that is on the wire is in the reference map. -/
theorem mem_foldl_insert {records : List Record} {key : List UInt8}
    {w : Finmap (fun _ : List UInt8 => List UInt8)}
    (h : key ∈ w ∨ ∃ r ∈ records, r.key = key) :
    key ∈ records.foldl (fun w r => w.insert r.key r.value) w := by
  induction records generalizing w with
  | nil => simpa using h
  | cons r records ih =>
    refine ih ?_
    rw [Finmap.mem_insert]
    rcases h with h | ⟨r', hr', rfl⟩
    · exact .inl (.inr h)
    · rcases List.mem_cons.1 hr' with rfl | hr'
      · exact .inl (.inl rfl)
      · exact .inr ⟨r', hr', rfl⟩

/-- The box of some records is the reference map exactly if no key has a NUL in it. -/
theorem denotes_ofRecords_iff {records : List Record} :
    (BoxMap.ofRecords records).Denotes (WireMap.ofRecords records) ↔ ∀ r ∈ records, 0 ∉ r.key := by
  constructor
  · exact fun h r hr => h.nulFree r.key (mem_foldl_insert (.inr ⟨r, hr, rfl⟩))
  · refine fun nulFree => denotes_foldl nulFree ⟨?_, ?_⟩
    · exact fun key h => absurd h Finmap.notMem_empty
    · exact fun name => by rw [Finmap.lookup_empty, Finmap.lookup_empty]

/-! ## The decoder on any stream -/

/-- The progress of the decoder on a stream, against its reference decoding: a key that begins
with a NUL stops it before the box with that key is dispatched. -/
inductive StreamResult (seen : List (Option AmpBox)) (decoded : Wire.Decoded) :
    Progress (List (Option AmpBox)) → Prop where
  | stopped (got : List (Option AmpBox)) (records : List Record) (r : Record)
      (hrecords : records ∈ decoded.boxes) (hr : r ∈ records) (nul : r.key.head? = some 0)
      (fewer : got.length < decoded.boxes.length) :
      StreamResult seen decoded (.failed ampBadKeySize plenty (seen ++ got))
  | failed (got : List (Option AmpBox))
      (maps : seenMaps got = decoded.boxes.map fun records => some (BoxMap.ofRecords records))
      (named : ∀ records ∈ decoded.boxes, ∀ r ∈ records, r.key.head? ≠ some 0)
      (why : decoded.bad = true ∨ ∃ r ∈ decoded.settled, r.key.head? = some 0) :
      StreamResult seen decoded (.failed ampBadKeySize plenty (seen ++ got))
  | ongoing (got : List (Option AmpBox)) (phase : Phase) (box : Option AmpBox)
      (maps : seenMaps got = decoded.boxes.map fun records => some (BoxMap.ofRecords records))
      (named : ∀ records ∈ decoded.boxes, ∀ r ∈ records, r.key.head? ≠ some 0)
      (good : decoded.bad = false)
      (settled : ∀ r ∈ decoded.settled, r.key.head? ≠ some 0) :
      StreamResult seen decoded (.ongoing ⟨phase, box, plenty, seen ++ got⟩)

/-- Dispatching a box before the rest of the stream. -/
theorem StreamResult.dispatched {seen : List (Option AmpBox)} {decoded : Wire.Decoded}
    {p : Progress (List (Option AmpBox))} {box : AmpBox} {records : List Record}
    (map : box.toMap = BoxMap.ofRecords records)
    (named : ∀ r ∈ records, r.key.head? ≠ some 0)
    (h : StreamResult (seen ++ [some box]) decoded p) :
    StreamResult seen { decoded with boxes := records :: decoded.boxes } p := by
  have cons {got : List (Option AmpBox)}
      (maps : seenMaps got = decoded.boxes.map fun records => some (BoxMap.ofRecords records)) :
      seenMaps (some box :: got) =
        (records :: decoded.boxes).map fun records => some (BoxMap.ofRecords records) := by
    simp [seenMaps, map, ← maps]
  have all (h : ∀ records ∈ decoded.boxes, ∀ r ∈ records, r.key.head? ≠ some 0) :
      ∀ rs ∈ records :: decoded.boxes, ∀ r ∈ rs, r.key.head? ≠ some 0 := by
    intro rs hrs
    rcases List.mem_cons.1 hrs with rfl | hrs
    · exact named
    · exact h rs hrs
  cases h with
  | stopped got rs r hrecords hr nul fewer =>
    rw [List.append_assoc, List.singleton_append]
    exact .stopped _ rs r (List.mem_cons_of_mem _ hrecords) hr nul (by simpa using fewer)
  | failed got maps named' why =>
    rw [List.append_assoc, List.singleton_append]
    exact .failed _ (cons maps) (all named') why
  | ongoing got phase box' maps named' good settled =>
    rw [List.append_assoc, List.singleton_append]
    exact .ongoing _ phase box' (cons maps) (all named') good settled

/-- What the decoder makes of any stream, from the middle of a box on. -/
theorem Decoder.run_stream (records : List Record) (s : List UInt8)
    (named : ∀ r ∈ records, r.key.head? ≠ some 0) {box : AmpBox} (wf : box.WF)
    (map : box.toMap = BoxMap.ofRecords records) (seen : List (Option AmpBox)) :
    ∃ p, Decoder.run recordBoxes ⟨.keyLenHigh, some box, plenty, seen⟩ s = .ok p ∧
      StreamResult seen (Wire.decode records s) p := by
  fun_induction Wire.decode records s generalizing box seen with
  | case1 records s rest h d ih =>
    obtain ⟨p, run, result⟩ := ih (by simp) (AmpBox.wf_new hashString) (AmpBox.toMap_new _)
      (seen ++ [some box])
    refine ⟨p, ?_, result.dispatched map named⟩
    rw [Wire.eq_of_readItem_endOfBox h, run_endOfBox rfl]
    exact run
  | case2 records s r rest h ih =>
    obtain ⟨rfl, fits⟩ := Wire.eq_of_readItem_record h
    by_cases pending : r.value = [] ∧ rest = []
    · -- the record is not stored before another byte arrives
      obtain ⟨noValue, rfl⟩ := pending
      have last : Wire.decode (records ++ [r]) [] = ⟨[], records ++ [r], [], false⟩ :=
        Wire.decode_incomplete rfl
      rw [List.append_nil, run_pendingRecord rfl fits noValue, last]
      refine ⟨_, rfl, ?_⟩
      have result : StreamResult seen ⟨[], records ++ [r], [], false⟩ _ := .ongoing
        [] (.valData r.key 0 []) (some box) rfl (by simp) rfl
        (by simpa [Wire.Decoded.settled, noValue] using named)
      simpa using result
    have more : r.value ≠ [] ∨ rest ≠ [] := by
      by_contra none
      exact pending (by simpa using none)
    rw [run_record rfl fits more]
    by_cases nul : r.key.head? = some 0
    · rw [store_nul fits nul, Progress.andThen_failed]
      refine ⟨_, rfl, ?_⟩
      rcases Wire.decode_prefix (records ++ [r]) rest with ⟨tail, boxes, hb⟩ | ⟨hb, -⟩
      · have result : StreamResult seen (Wire.decode (records ++ [r]) rest) _ :=
          .stopped [] (records ++ [r] ++ tail) r (by simp [hb]) (by simp) nul (by simp [hb])
        simpa using result
      · have result : StreamResult seen (Wire.decode (records ++ [r]) rest) _ :=
          .failed [] (by simp [hb, seenMaps]) (by simp [hb])
            (.inr ⟨r, Wire.mem_settled_decode more hb, nul⟩)
        simpa using result
    · obtain ⟨box', store, wf', map'⟩ := store_plenty (d := ⟨.keyLenHigh, some box, plenty, seen⟩)
        wf rfl rfl fits nul
      rw [store, Progress.andThen_ongoing]
      refine ih ?_ wf' ?_ seen
      · intro r' hr'
        rcases List.mem_append.1 hr' with hr' | hr'
        · exact named r' hr'
        · rwa [List.mem_singleton.1 hr']
      · rw [map', map, BoxMap.ofRecords, BoxMap.ofRecords, List.foldl_concat]
  | case3 records s h =>
    obtain ⟨high, t, rfl, bad⟩ := Wire.eq_of_readItem_badKeyLength h
    rw [run_badKeyLength rfl bad]
    refine ⟨_, rfl, ?_⟩
    have result : StreamResult seen ⟨[], records, high :: t, true⟩ _ := .failed [] rfl (by simp)
      (.inl rfl)
    simpa using result
  | case4 records s h =>
    obtain ⟨phase, run⟩ := run_incomplete recordBoxes
      (d := ⟨.keyLenHigh, some box, plenty, seen⟩) rfl h
    refine ⟨_, run, ?_⟩
    have result : StreamResult seen ⟨[], records, s, false⟩ _ := .ongoing [] phase (some box) rfl
      (by simp) rfl fun r hr => named r (Wire.Decoded.mem_pending_of_settled hr)
    simpa using result

/-! ## When the two agree -/

theorem forall₂_denotes_iff {boxes : List (List Record)} :
    List.Forall₂ (fun (m : Option BoxMap) records =>
        ∃ map, m = some map ∧ map.Denotes (WireMap.ofRecords records))
      (boxes.map fun records => some (BoxMap.ofRecords records)) boxes ↔
      ∀ records ∈ boxes, ∀ r ∈ records, 0 ∉ r.key := by
  rw [List.forall₂_map_left_iff, List.forall₂_same]
  simp [denotes_ofRecords_iff]

/-- A fresh decoder decodes a stream as the wire format says exactly if its keys are strings. -/
theorem StreamResult.decodesWire_iff {s : List UInt8} {p : Progress (List (Option AmpBox))}
    (result : StreamResult [] (Wire.decode [] s) p) {ret : Int}
    {after : Consumer (List (Option AmpBox))} (shows : Shows (ret, after) p) :
    DecodesWire after.own ret s ↔ KeysAreStrings s := by
  have badSize : ampBadKeySize ≠ 0 := by decide
  cases result with
  | stopped got records r hrecords hr nul fewer =>
    obtain ⟨-, -, -, -, hown⟩ := shows
    constructor
    · intro h
      have same := h.boxes.length_eq
      rw [show after.own = got from hown] at same
      simp only [seenMaps, List.length_map] at same
      omega
    · exact fun h => absurd (List.mem_of_head? nul) (h.1 records hrecords r hr)
  | failed got maps named why =>
    obtain ⟨hret, -, -, -, hown⟩ := shows
    have hown : after.own = got := hown
    have hret : ret = ampBadKeySize := hret
    constructor
    · intro h
      have boxes := h.boxes
      rw [hown, maps, forall₂_denotes_iff] at boxes
      exact ⟨boxes, .inl (h.fails.1 (hret ▸ badSize))⟩
    · intro h
      refine ⟨?_, ⟨fun _ => ?_, fun _ => hret ▸ badSize⟩, fun _ => hret⟩
      · rw [hown, maps, forall₂_denotes_iff]
        exact h.1
      · rcases why with bad | ⟨r, hr, nul⟩
        · exact bad
        · exact h.2.resolve_right fun settled => settled r hr nul
  | ongoing got phase box maps named good settled =>
    obtain ⟨hret, rep⟩ := shows
    have hown : after.own = got := rep.own
    have hret : ret = 0 := hret
    constructor
    · intro h
      have boxes := h.boxes
      rw [hown, maps, forall₂_denotes_iff] at boxes
      exact ⟨boxes, .inr settled⟩
    · intro h
      refine ⟨?_, ⟨fun hne => absurd hret hne, fun bad => ?_⟩, fun hne => absurd hret hne⟩
      · rw [hown, maps, forall₂_denotes_iff]
        exact h.1
      · rw [good] at bad
        cases bad

/-- Whatever is fed to a fresh proto, the parser ends, and decodes the wire format exactly if the
keys are strings. -/
theorem parsesWire_iff {keyData : Buffer (256 + 1)} {valData : Buffer (256 * 256)}
    {proto : AmpProto} (parser : proto.toParser = .fresh keyData valData (AmpBox.new hashString))
    (chunks : List (List UInt8)) : ParsesWire proto chunks ↔ KeysAreStrings chunks.flatten := by
  have rep : Represents ⟨proto.toParser, plenty, ([] : List (Option AmpBox))⟩ (.fresh []) :=
    .fresh parser _ _
  obtain ⟨p, run, result⟩ := Decoder.run_stream [] chunks.flatten (by simp)
    (AmpBox.wf_new hashString) (AmpBox.toMap_new _) []
  have fed := rep.feedUntilError recordBoxes chunks
  rw [Decoder.fresh, run] at fed
  obtain ⟨⟨ret, after⟩, hfeed, shows⟩ := fed
  rw [← result.decodesWire_iff shows]
  constructor
  · rintro ⟨ret', after', h, decodes⟩
    rw [hfeed] at h
    obtain ⟨rfl, rfl⟩ : ret = ret' ∧ after = after' := by simpa using h
    exact decodes
  · exact fun decodes => ⟨ret, after, hfeed, decodes⟩

/-- A proto fresh from `amp_new_proto` decodes exactly the wire format, for exactly the streams
whose keys are strings. -/
theorem parses_wire_iff {keyData : Buffer (256 + 1)} {valData : Buffer (256 * 256)}
    {proto : AmpProto} (fresh : ampNewProto plenty keyData valData = .ok (some proto, plenty))
    (chunks : List (List UInt8)) : ParsesWire proto chunks ↔ KeysAreStrings chunks.flatten :=
  parsesWire_iff (ampNewProto_ok fresh).1 chunks

/-- A box with the key `a`, and then a key length that is too large. -/
theorem parses_wire_iff_sample :
    ∃ proto, ampNewProto plenty (.zeros _) (.zeros _) = .ok (some proto, plenty) ∧
      ParsesWire proto [[0, 1, 97, 0], [1, 5, 0, 0], [1]] := by
  obtain ⟨proto, fresh⟩ := ampNewProto_plenty (.zeros _) (.zeros _)
  refine ⟨proto, fresh, (parses_wire_iff fresh _).2 ?_⟩
  have decoded : Wire.decode [] [0, 1, 97, 0, 1, 5, 0, 0, 1] =
      ⟨[[⟨[97], [5]⟩]], [], [1], true⟩ := by
    have first : Wire.readItem [0, 1, 97, 0, 1, 5, 0, 0, 1] = .record ⟨[97], [5]⟩ [0, 0, 1] := by
      simp [Wire.readItem]
    have second : Wire.readItem [0, 0, 1] = .endOfBox [1] := by simp [Wire.readItem]
    have third : Wire.readItem [1] = .badKeyLength := by simp [Wire.readItem]
    rw [Wire.decode_record first, Wire.decode_endOfBox second, Wire.decode_badKeyLength third]
    rfl
  rw [show [[0, 1, 97, 0], [1, 5, 0, 0], [1]].flatten = ([0, 1, 97, 0, 1, 5, 0, 0, 1] : List UInt8)
    from rfl, KeysAreStrings, decoded]
  simp

/-- A box with the two keys `a` and `a` NUL holds one of them, and a box with the key NUL is not
dispatched at all though no key length is too large. -/
theorem parses_wire_nul :
    ∃ proto, ampNewProto plenty (.zeros _) (.zeros _) = .ok (some proto, plenty) ∧
      ¬ ParsesWire proto [[0, 1, 97, 0, 0, 0, 2, 97, 0, 0, 1, 5, 0, 0]] ∧
      ¬ ParsesWire proto [[0, 1, 0, 0, 0, 0, 0]] := by
  obtain ⟨proto, fresh⟩ := ampNewProto_plenty (.zeros _) (.zeros _)
  have parser := (ampNewProto_ok fresh).1
  refine ⟨proto, fresh, ?_, ?_⟩ <;> intro parses
  · have decoded : Wire.decode [] [0, 1, 97, 0, 0, 0, 2, 97, 0, 0, 1, 5, 0, 0] =
        ⟨[[⟨[97], []⟩, ⟨[97, 0], [5]⟩]], [], [], false⟩ := by
      have first : Wire.readItem [0, 1, 97, 0, 0, 0, 2, 97, 0, 0, 1, 5, 0, 0] =
          .record ⟨[97], []⟩ [0, 2, 97, 0, 0, 1, 5, 0, 0] := by
        simp [Wire.readItem]
      have second : Wire.readItem [0, 2, 97, 0, 0, 1, 5, 0, 0] =
          .record ⟨[97, 0], [5]⟩ [0, 0] := by
        simp [Wire.readItem]
      have third : Wire.readItem [0, 0] = .endOfBox [] := by simp [Wire.readItem]
      rw [Wire.decode_record first, Wire.decode_record second, Wire.decode_endOfBox third,
        Wire.decode_incomplete rfl]
      rfl
    have strings := ((parsesWire_iff parser _).1 parses).1
    rw [List.flatten_singleton, decoded] at strings
    simp at strings
  · have decoded : Wire.decode [] [0, 1, 0, 0, 0, 0, 0] = ⟨[[⟨[0], []⟩]], [], [], false⟩ := by
      have first : Wire.readItem [0, 1, 0, 0, 0, 0, 0] = .record ⟨[0], []⟩ [0, 0] := by
        simp [Wire.readItem]
      have second : Wire.readItem [0, 0] = .endOfBox [] := by simp [Wire.readItem]
      rw [Wire.decode_record first, Wire.decode_endOfBox second, Wire.decode_incomplete rfl]
      rfl
    have strings := ((parsesWire_iff parser _).1 parses).1
    rw [List.flatten_singleton, decoded] at strings
    simp at strings

end LibAmp
