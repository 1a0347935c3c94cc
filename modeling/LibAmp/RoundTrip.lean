import LibAmp.Allocations
import LibAmp.Integers
import LibAmp.Items

/-!
# Serializing and parsing

`amp_serialize_box` writes the records of a box in the order of its chains, and allocates exactly
the bytes it writes as long as they fit a C `int`. A stream of such packets, cut anywhere, is
parsed back into the maps of the boxes (`wire_round_trip`).
-/

namespace LibAmp

open Wire (Record)

/-! ## The serializer -/

/-- The records of a box, in the order in which they are written. -/
def AmpBox.records (box : AmpBox) : List Record :=
  box.entries.map fun p => ⟨p.key.bytes, p.value⟩

theorem encodeKeyValue_eq (p : AmpKeyValue) :
    encodeKeyValue p = Wire.encodeRecord ⟨p.key.bytes, p.value⟩ := by
  have keyLe := p.key_le
  have valueLe := p.value_le
  have keySize : p.keySize.toNat = p.key.bytes.length := by rw [p.keySize_eq]; rfl
  have valueSize : p.valueSize.toNat = p.value.length := by rw [p.valueSize_eq]; rfl
  simp only [strlen, maxKeyLength] at keyLe
  have high : p.value.length >>> 8 = p.value.length / 256 := Nat.shiftRight_eq_div_pow _ 8
  have low : p.value.length &&& 0xff = p.value.length % 256 :=
    Nat.and_two_pow_sub_one_eq_mod p.value.length 8
  rw [encodeKeyValue, Wire.encodeRecord, keySize, valueSize, high, low,
    Wire.encodeLength_of_lt (show p.key.bytes.length < 256 by omega), Wire.encodeLength]
  simp

theorem serializedBytes_eq (box : AmpBox) :
    serializedBytes box = Wire.encodeBox box.records := by
  simp only [serializedBytes, Wire.encodeBox, AmpBox.records, List.flatMap_map]
  congr 2
  funext p
  exact encodeKeyValue_eq p

theorem length_encodeKeyValue (p : AmpKeyValue) :
    ((encodeKeyValue p).length : Int) = 4 + p.keySize + p.valueSize := by
  rw [encodeKeyValue_eq, p.keySize_eq, p.valueSize_eq]
  simp only [Wire.encodeRecord, Wire.encodeLength, strlen, List.length_append, List.length_cons,
    List.length_nil]
  omega

/-- The first loop counts what the second one writes, modulo 2³². -/
theorem foldl_size (l : List AmpKeyValue) (size : Int32) :
    l.foldl (fun size p => size + Int32.ofInt (4 + p.keySize + p.valueSize)) size =
      size + Int32.ofInt (l.flatMap encodeKeyValue).length := by
  induction l generalizing size with
  | nil => simp
  | cons p l ih =>
    rw [List.foldl_cons, ih, ← length_encodeKeyValue, List.flatMap_cons, List.length_append,
      Int.natCast_add, Int32.ofInt_add, Int32.add_assoc]

theorem serializedSize_eq (box : AmpBox) :
    serializedSize box = Int32.ofInt (serializedBytes box).length := by
  rw [serializedSize, foldl_size, serializedBytes, List.length_append, Int.natCast_add,
    Int32.ofInt_add, Int32.add_comm]
  rfl

/-- The bytes allocated are the bytes written, if they fit a C `int`. -/
theorem serializedSize_toInt {box : AmpBox} (fits : (serializedBytes box).length ≤ intMax) :
    (serializedSize box).toInt = (serializedBytes box).length := by
  simp only [intMax] at fits
  rw [serializedSize_eq, Int32.toInt_ofInt_of_le (by omega) (by omega)]

/-- A box has no keys just when nothing but the terminator would be written. -/
theorem AmpBox.WF.numKeys_eq_zero_iff {box : AmpBox} (wf : box.WF) :
    ampNumKeys box = 0 ↔ (serializedBytes box).length = 2 := by
  rw [ampNumKeys, wf.length_eq, serializedBytes, List.length_append, List.length_flatMap]
  cases box.entries with
  | nil => simp
  | cons p ps =>
    have := length_encodeKeyValue p
    have := p.keySize_eq
    have := p.valueSize_eq
    have := p.key_pos
    simp only [List.length_cons, List.length_nil, List.map_cons, List.sum_cons]
    omega

/-- If the packet fits a C `int`, only a box without keys is taken for an empty one. -/
theorem AmpBox.WF.serializedSize_eq_two_iff {box : AmpBox} (wf : box.WF)
    (fits : (serializedBytes box).length ≤ intMax) :
    serializedSize box = 2 ↔ ampNumKeys box = 0 := by
  rw [wf.numKeys_eq_zero_iff, ← Int32.toInt_inj, serializedSize_toInt fits]
  exact Int.ofNat_inj

/-- The ways out of `amp_serialize_box`, before and after its allocation. -/
theorem ampSerializeBox_eq (mem : Mem) (box : AmpBox) :
    ampSerializeBox mem box =
      if serializedSize box = 2 then .ok (.error ampBoxEmpty, mem)
      else if mem 0 .packet = false ∨ (serializedSize box).toInt < 0 then
        .ok (.error enomem, mem.drop 1)
      else if (serializedBytes box).length > (serializedSize box).toInt then .error .outOfBounds
      else .ok (.ok (serializedBytes box), mem.drop 1) := by
  rw [ampSerializeBox, malloc_eq]
  cases mem 0 .packet <;> simp

/-- A box with something in it whose packet fits a C `int` is serialized, if there is memory
for the packet. -/
theorem AmpBox.WF.serialize_eq {box : AmpBox} (wf : box.WF) (mem : Mem)
    (nonempty : ampNumKeys box ≠ 0) (fits : (serializedBytes box).length ≤ intMax) :
    ampSerializeBox mem box =
      .ok (if mem 0 .packet then .ok (serializedBytes box) else .error enomem, mem.drop 1) := by
  have size := serializedSize_toInt fits
  have notEmpty : ¬ serializedSize box = 2 := fun h =>
    nonempty ((wf.serializedSize_eq_two_iff fits).1 h)
  have notNegative : ¬ (serializedSize box).toInt < 0 := by omega
  have notShort : ¬ ((serializedBytes box).length : Int) > (serializedSize box).toInt := by omega
  rw [ampSerializeBox_eq, if_neg notEmpty, if_neg notShort]
  cases packet : mem 0 .packet <;> simp [notNegative]

theorem AmpBox.WF.serialize {box : AmpBox} (wf : box.WF) (nonempty : ampNumKeys box ≠ 0)
    (fits : (serializedBytes box).length ≤ intMax) :
    ampSerializeBox plenty box = .ok (.ok (serializedBytes box), plenty) :=
  wf.serialize_eq plenty nonempty fits

/-- A packet that comes out fits a C `int`. -/
theorem ampSerializeBox_packet {mem mem' : Mem} {box : AmpBox} {packet : List UInt8}
    (h : ampSerializeBox mem box = .ok (.ok packet, mem')) :
    packet = serializedBytes box ∧ (serializedBytes box).length ≤ intMax ∧
      mem 0 .packet = true := by
  have small : (serializedSize box).toInt ≤ intMax := Int32.toInt_le _
  rw [ampSerializeBox_eq] at h
  split at h
  · cases h
  split at h
  · cases h
  · next served =>
    obtain ⟨packetServed, -⟩ := not_or.1 served
    split at h
    · cases h
    · next room =>
      cases h
      exact ⟨rfl, by omega, by simpa using packetServed⟩

/-! ## The records of a box -/

theorem AmpBox.fits_records {box : AmpBox} {r : Record} (h : r ∈ box.records) : r.Fits := by
  obtain ⟨p, -, rfl⟩ := List.mem_map.1 h
  exact ⟨p.key_pos, p.key_le, p.value_le⟩

theorem AmpBox.nulFree_records {box : AmpBox} {r : Record} (h : r ∈ box.records) :
    0 ∉ r.key := by
  obtain ⟨p, -, rfl⟩ := List.mem_map.1 h
  exact p.key.nulFree

theorem AmpBox.named_records {box : AmpBox} {r : Record} (h : r ∈ box.records) :
    r.key.head? ≠ some 0 :=
  fun h0 => nulFree_records h (List.mem_of_head? h0)

/-- Inserting entries with different keys one after the other finds each of them again. -/
theorem lookup_foldl_insert {l : List AmpKeyValue} (nodup : (l.map (·.key)).Nodup) (m : BoxMap)
    (key : CString) :
    (l.foldl (fun m p => m.insert p.key p.value) m).lookup key =
      ((l.find? fun p => p.key = key).map (·.value)).or (m.lookup key) := by
  induction l generalizing m with
  | nil => simp
  | cons p l ih =>
    obtain ⟨hp, hl⟩ := List.nodup_cons.1 nodup
    rw [List.foldl_cons, ih hl]
    by_cases hk : p.key = key
    · subst hk
      have absent : l.find? (fun q => q.key = p.key) = none :=
        List.find?_eq_none.2 fun q hq => by
          have other : q.key ≠ p.key := fun h => hp (List.mem_map.2 ⟨q, hq, h⟩)
          simpa using other
      simp [absent, Finmap.lookup_insert]
    · simp [hk, Finmap.lookup_insert_of_ne _ (Ne.symm hk)]

/-- The records of a box stand for its map. -/
theorem AmpBox.WF.ofRecords_records {box : AmpBox} (wf : box.WF) :
    BoxMap.ofRecords box.records = box.toMap := by
  have names : BoxMap.ofRecords box.records =
      box.entries.foldl (fun m p => m.insert p.key p.value) ∅ := by
    simp only [BoxMap.ofRecords, AmpBox.records, List.foldl_map, BoxMap.record, keyName,
      CString.ofBytes_bytes]
  rw [names]
  apply Finmap.ext_lookup
  intro key
  rw [AmpBox.entries, lookup_foldl_insert wf.chains.nodup_entries, Finmap.lookup_empty,
    Option.or_none, toMap, wf.chains.lookup_toFinmap, wf.chains.find?_entries]

/-! ## Streams of boxes -/

/-- A handler that keeps the boxes it is given and always returns 0. -/
def recordBoxes : DispatchBox (List (Option AmpBox)) :=
  fun mem box seen => .ok ⟨0, box, mem, seen ++ [box]⟩

/-- The maps of the boxes a recording handler has kept. -/
def seenMaps (seen : List (Option AmpBox)) : List (Option BoxMap) := seen.map (·.map AmpBox.toMap)

/-- Whole boxes are dispatched one after the other, each with the map of its records. -/
theorem Decoder.run_boxes (boxes : List (List Record))
    (fits : ∀ records ∈ boxes, ∀ r ∈ records, r.Fits)
    (named : ∀ records ∈ boxes, ∀ r ∈ records, r.key.head? ≠ some 0)
    (seen : List (Option AmpBox)) (s : List UInt8) :
    ∃ got, (Decoder.fresh seen).run recordBoxes (boxes.flatMap Wire.encodeBox ++ s) =
        (Decoder.fresh (seen ++ got)).run recordBoxes s ∧
      seenMaps got = boxes.map fun records => some (BoxMap.ofRecords records) := by
  induction boxes generalizing seen with
  | nil => exact ⟨[], by simp, rfl⟩
  | cons records boxes ih =>
    obtain ⟨box, run, -, map⟩ := run_box recordBoxes (fits records (by simp))
      (named records (by simp)) seen (boxes.flatMap Wire.encodeBox ++ s)
    obtain ⟨got, rest, maps⟩ := ih (fun rs h => fits rs (by simp [h]))
      (fun rs h => named rs (by simp [h])) (seen ++ [some box])
    refine ⟨some box :: got, ?_, by simp [seenMaps, map, ← maps]⟩
    have finish : finishBox recordBoxes ⟨.keyLenHigh, some box, plenty, seen⟩ =
        .ok (.ongoing (fresh (seen ++ [some box]))) := rfl
    rw [List.flatMap_cons, List.append_assoc, run, finish, Progress.andThen_ongoing, rest,
      List.append_assoc, List.singleton_append]

/-- Any boxes built by any calls, serialized one after the other and cut into any chunks, come
out of a fresh proto as the same maps in the same order, and leave the proto as it was. -/
theorem wire_round_trip {keyData : Buffer (256 + 1)} {valData : Buffer (256 * 256)}
    {proto : AmpProto} (fresh : ampNewProto plenty keyData valData = .ok (some proto, plenty))
    {boxes : List AmpBox} (built : ∀ box ∈ boxes, box.Built)
    (nonempty : ∀ box ∈ boxes, ampNumKeys box ≠ 0)
    (fits : ∀ box ∈ boxes, (serializedBytes box).length ≤ intMax) :
    ∃ packets,
      List.Forall₂ (fun box packet => ampSerializeBox plenty box = .ok (.ok packet, plenty))
        boxes packets ∧
      ∀ chunks : List (List UInt8), chunks.flatten = packets.flatten →
        ∃ after, feed recordBoxes ⟨proto.toParser, plenty, []⟩ chunks =
            .ok (chunks.map fun _ => 0, after) ∧
          seenMaps after.own = boxes.map (fun box => some box.toMap) ∧
          after.proto.error = 0 ∧ after.proto.state = proto.state ∧
          after.proto.keyLen = proto.keyLen ∧ after.proto.valLen = proto.valLen ∧
          after.proto.keyDataFetched = proto.keyDataFetched ∧
          after.proto.valDataFetched = proto.valDataFetched ∧
          ∃ box, after.proto.box = some box ∧ ampNumKeys box = 0 ∧ box.toMap = ∅ := by
  have parser := (ampNewProto_ok fresh).1
  refine ⟨boxes.map serializedBytes, ?_, ?_⟩
  · rw [List.forall₂_map_right_iff, List.forall₂_same]
    intro box h
    exact (built box h).wf.serialize (nonempty box h) (fits box h)
  intro chunks cut
  have rep : Represents ⟨proto.toParser, plenty, ([] : List (Option AmpBox))⟩ (.fresh []) :=
    .fresh parser _ _
  have stream : chunks.flatten = (boxes.map AmpBox.records).flatMap Wire.encodeBox ++ [] := by
    rw [cut, List.append_nil, List.flatMap_map, List.flatMap_def]
    congr 2
    funext box
    exact serializedBytes_eq box
  obtain ⟨got, run, maps⟩ := Decoder.run_boxes (boxes.map AmpBox.records)
    (fun records h r hr => by
      obtain ⟨box, -, rfl⟩ := List.mem_map.1 h
      exact AmpBox.fits_records hr)
    (fun records h r hr => by
      obtain ⟨box, -, rfl⟩ := List.mem_map.1 h
      exact AmpBox.named_records hr) [] []
  rw [← stream, Decoder.run_nil, List.nil_append] at run
  obtain ⟨after, hfeed, repAfter⟩ := rep.feed_ongoing chunks run
  obtain ⟨hstate, hkeyLen, hkeyFetched, hvalLen, hvalFetched⟩ := repAfter.atPhase
  refine ⟨after, hfeed, ?_, repAfter.noError, ?_, ?_, ?_, ?_, ?_, _, repAfter.box, rfl,
    AmpBox.toMap_new _⟩
  · rw [repAfter.own, Decoder.fresh, maps, List.map_map]
    exact List.map_congr_left fun box h => by
      simp only [Function.comp_apply, (built box h).wf.ofRecords_records]
  · rw [hstate, parser]
    rfl
  · rw [hkeyLen, parser]
    rfl
  · rw [hvalLen, parser]
    rfl
  · rw [hkeyFetched, parser]
    rfl
  · rw [hvalFetched, parser]
    rfl

/-- A box that maps `_ask` to two bytes and `_command` to none. -/
def sampleBox : AmpBox := ((AmpBox.new hashString).add Key.ask [1, 2]).add Key.command []

theorem sampleBox_built : sampleBox.Built :=
  ⟨plenty, [.put Key.ask [1, 2, 3] 2 (by decide), .put Key.command [] 0 (by decide)], _, plenty,
    rfl⟩

/-- The sample box sent twice. -/
theorem wire_round_trip_sample :
    ∃ proto packets, ampNewProto plenty (.zeros _) (.zeros _) = .ok (some proto, plenty) ∧
      List.Forall₂ (fun box packet => ampSerializeBox plenty box = .ok (.ok packet, plenty))
        [sampleBox, sampleBox] packets ∧
      ∀ chunks : List (List UInt8), chunks.flatten = packets.flatten →
        ∃ after, feed recordBoxes ⟨proto.toParser, plenty, []⟩ chunks =
            .ok (chunks.map fun _ => 0, after) ∧
          seenMaps after.own = [some sampleBox.toMap, some sampleBox.toMap] := by
  have only {P : AmpBox → Prop} (h : P sampleBox) : ∀ box ∈ [sampleBox, sampleBox], P box := by
    simpa using h
  obtain ⟨proto, fresh⟩ := ampNewProto_plenty (.zeros _) (.zeros _)
  obtain ⟨packets, serialized, parsed⟩ := wire_round_trip fresh (only sampleBox_built)
    (only (by decide)) (only (by decide))
  refine ⟨proto, packets, fresh, serialized, ?_⟩
  intro chunks cut
  obtain ⟨after, hfeed, maps, -⟩ := parsed chunks cut
  exact ⟨after, hfeed, maps⟩

end LibAmp
