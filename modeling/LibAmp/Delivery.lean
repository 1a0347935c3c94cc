import LibAmp.RoundTrip

/-!
# Delivering packets in pieces

A channel carries the packets of its sender as one stream of bytes, and hands them to its receiver
in chunks that need not end where a packet ends. `Receives` says how far the receiver has come:
some packets were dispatched, and part of the next one is parsed. What dispatching a whole packet
keeps, delivering a chunk keeps (`Receives.deliver`).
-/

namespace LibAmp

open Wire (Record)

variable {σ : Type}

/-! ## Packets -/

/-- The bytes of one box, and the map the box stands for. -/
def IsPacket (packet : List UInt8) (m : BoxMap) : Prop :=
  ∃ records : List Record, packet = Wire.encodeBox records ∧ (∀ r ∈ records, r.Fits) ∧
    (∀ r ∈ records, r.key.head? ≠ some 0) ∧ BoxMap.ofRecords records = m

theorem AmpBox.WF.isPacket {box : AmpBox} (wf : box.WF) :
    IsPacket (serializedBytes box) box.toMap :=
  ⟨box.records, serializedBytes_eq box, fun _ h => fits_records h, fun _ h => named_records h,
    wf.ofRecords_records⟩

variable {packet part : List UInt8} {m : BoxMap}

/-- A packet is dispatched as soon as it is complete. -/
theorem IsPacket.run (packs : IsPacket packet m) (dispatch : DispatchBox σ) (own : σ)
    (s : List UInt8) :
    ∃ box : AmpBox, box.WF ∧ box.toMap = m ∧ (Decoder.fresh own).run dispatch (packet ++ s) =
      Progress.andThen (Decoder.finishBox dispatch ⟨.keyLenHigh, some box, plenty, own⟩)
        fun d => d.run dispatch s := by
  obtain ⟨records, rfl, fits, named, rfl⟩ := packs
  obtain ⟨box, run, wf, map⟩ := Decoder.run_box dispatch fits named own s
  exact ⟨box, wf, map, run⟩

/-! ## Part of a packet -/

/-- A handler that no run survives. -/
def noDispatch : DispatchBox Unit := fun _ _ _ => .error .nullDereference

/-- After the bytes `part` the decoder stands at `d`, and has not dispatched a box. -/
def Partway (part : List UInt8) (d : Decoder Unit) : Prop :=
  (Decoder.fresh ()).run noDispatch part = .ok (.ongoing d)

theorem partway_nil : Partway [] (.fresh ()) := rfl

namespace Decoder

/-- The same decoder with a state for its handler. -/
def withOwn (d : Decoder Unit) (own : σ) : Decoder σ := ⟨d.phase, d.box, d.mem, own⟩

variable {d d' : Decoder Unit} {key value s : List UInt8} {c : UInt8}

theorem store_withOwn (h : d.store key value = .ok (.ongoing d')) (own : σ) :
    (d.withOwn own).store key value = .ok (.ongoing (d'.withOwn own)) := by
  unfold store withOwn at *
  grind

theorem start_withOwn (h : d.start c = .ongoing d') (own : σ) :
    (d.withOwn own).start c = .ongoing (d'.withOwn own) := by
  unfold start withOwn at *
  grind

/-- As long as no box is dispatched, the handler and its state do not matter. -/
theorem step_withOwn (h : d.step noDispatch c = .ok (.ongoing d')) (dispatch : DispatchBox σ)
    (own : σ) : (d.withOwn own).step dispatch c = .ok (.ongoing (d'.withOwn own)) := by
  unfold step at h ⊢
  rw [show (d.withOwn own).phase = d.phase from rfl]
  cases hphase : d.phase with
  | keyLenHigh =>
    simp only [hphase] at h ⊢
    rw [start_withOwn (Except.ok.inj h) own]
  | keyLenLow =>
    simp only [hphase] at h ⊢
    split at h
    · cases h
    · next hc =>
      obtain rfl := Progress.ongoing.inj (Except.ok.inj h)
      rw [if_neg hc]
      rfl
  | keyData len got =>
    simp only [hphase] at h ⊢
    split at h <;> next hlen =>
      obtain rfl := Progress.ongoing.inj (Except.ok.inj h)
      simp only [hlen, ↓reduceIte]
      rfl
  | valLenHigh key =>
    simp only [hphase] at h ⊢
    obtain rfl := Progress.ongoing.inj (Except.ok.inj h)
    rfl
  | valLenLow key high =>
    simp only [hphase] at h ⊢
    obtain rfl := Progress.ongoing.inj (Except.ok.inj h)
    rfl
  | valData key len got =>
    simp only [hphase] at h ⊢
    split at h
    · next full =>
      rw [if_pos full]
      rcases hstore : d.store key got with e | d₁ | ⟨ret, mem, own'⟩ <;> rw [hstore] at h
      · cases h
      · rw [store_withOwn hstore own, Progress.andThen_ongoing,
          start_withOwn (Except.ok.inj h) own]
      · cases h
    · next notFull =>
      rw [if_neg notFull]
      split at h
      · next more =>
        obtain rfl := Progress.ongoing.inj (Except.ok.inj h)
        rw [if_pos more]
        rfl
      · next last =>
        rw [if_neg last]
        exact store_withOwn h own

theorem run_withOwn (h : d.run noDispatch s = .ok (.ongoing d')) (dispatch : DispatchBox σ)
    (own : σ) : (d.withOwn own).run dispatch s = .ok (.ongoing (d'.withOwn own)) := by
  induction s generalizing d with
  | nil =>
    obtain rfl := Progress.ongoing.inj (Except.ok.inj h)
    rfl
  | cons c s ih =>
    rw [run_cons] at h ⊢
    rcases hstep : d.step noDispatch c with e | d₁ | ⟨ret, mem, own'⟩ <;> rw [hstep] at h
    · cases h
    · rw [step_withOwn hstep dispatch own]
      exact ih h
    · cases h

end Decoder

variable {d : Decoder Unit}

theorem Partway.run (partway : Partway part d) (dispatch : DispatchBox σ) (own : σ)
    (s : List UInt8) :
    (Decoder.fresh own).run dispatch (part ++ s) = (d.withOwn own).run dispatch s := by
  have start : (Decoder.fresh own).run dispatch part = .ok (.ongoing (d.withOwn own)) :=
    Decoder.run_withOwn partway dispatch own
  rw [Decoder.run_append, start, Progress.andThen_ongoing]

/-- A part that ends before its packet does leads the decoder somewhere. -/
theorem IsPacket.partway (packs : IsPacket packet m) {rest : List UInt8}
    (split : part ++ rest = packet) (more : rest ≠ []) : ∃ d, Partway part d := by
  obtain ⟨records, rfl, fits, named, -⟩ := packs
  -- everything but the last byte of the packet can be decoded without dispatching
  have whole : ∃ d, (Decoder.fresh ()).run noDispatch
      (records.flatMap Wire.encodeRecord ++ [0]) = .ok (.ongoing d) := by
    obtain ⟨box, run, -⟩ := Decoder.run_records noDispatch fits named (AmpBox.wf_new hashString)
      (d := .fresh ()) rfl rfl rfl (s := [0]) (by simp)
    exact ⟨_, run⟩
  obtain ⟨init, last, rfl⟩ := (List.eq_nil_or_concat rest).resolve_left more
  have bytes : part ++ init = records.flatMap Wire.encodeRecord ++ [0] := by
    have ends : part ++ init ++ [last] = records.flatMap Wire.encodeRecord ++ [0] ++ [0] := by
      simpa [Wire.encodeBox] using split
    exact (List.append_inj' ends rfl).1
  obtain ⟨d, run⟩ := whole
  rw [← bytes, Decoder.run_append] at run
  rcases hpart : (Decoder.fresh ()).run noDispatch part with e | d' | ⟨ret, mem, own⟩ <;>
    rw [hpart] at run
  · cases run
  · exact ⟨d', hpart⟩
  · cases run

namespace Decoder

variable {d' : Decoder Unit} {key value s : List UInt8} {c : UInt8}

theorem store_mem (hmem : d.mem = plenty) (h : d.store key value = .ok (.ongoing d')) :
    d'.mem = plenty := by
  unfold store ampPutBytes ampPutBuf at h
  simp only [hmem, malloc_plenty] at h
  grind

theorem step_mem (hmem : d.mem = plenty) (h : d.step noDispatch c = .ok (.ongoing d')) :
    d'.mem = plenty := by
  have stored {key value : List UInt8} {d₁ : Decoder Unit}
      (h : d.store key value = .ok (.ongoing d₁)) : d₁.mem = plenty := store_mem hmem h
  unfold step Progress.andThen start finishBox noDispatch at h
  grind

theorem run_mem (hmem : d.mem = plenty) (h : d.run noDispatch s = .ok (.ongoing d')) :
    d'.mem = plenty := by
  induction s generalizing d with
  | nil =>
    obtain rfl := Progress.ongoing.inj (Except.ok.inj h)
    exact hmem
  | cons c s ih =>
    rw [run_cons] at h
    rcases hstep : d.step noDispatch c with e | d₁ | ⟨ret, mem, own⟩ <;> rw [hstep] at h
    · cases h
    · exact ih (step_mem hmem hstep) h
    · cases h

end Decoder

theorem Partway.mem (partway : Partway part d) : d.mem = plenty :=
  Decoder.run_mem rfl partway

/-! ## Chunks -/

section Deliver

variable (dispatch : DispatchBox σ) {Q : List BoxMap → σ → Prop}
  (keeps : ∀ m pending (box : AmpBox) own, Q (m :: pending) own → box.WF → box.toMap = m →
    ∃ r, dispatch plenty (some box) own = .ok r ∧ r.ret = 0 ∧ r.mem = plenty ∧ Q pending r.own)
include keeps

/-- What dispatching one packet keeps, decoding any piece of a stream of packets keeps. -/
theorem Partway.deliver {packets : List (List UInt8)} {maps : List BoxMap}
    (packs : List.Forall₂ IsPacket packets maps) (partway : Partway part d) {own : σ}
    (holds : Q maps own) {bytes tail : List UInt8}
    (split : part ++ bytes ++ tail = packets.flatten) :
    ∃ n part' d' own', n ≤ packets.length ∧ Partway part' d' ∧
      (d.withOwn own).run dispatch bytes = .ok (.ongoing (d'.withOwn own')) ∧
      (packets.take n).flatten ++ part' = part ++ bytes ∧ Q (maps.drop n) own' := by
  induction packs generalizing part d own bytes with
  | nil =>
    obtain ⟨rfl, rfl, -⟩ : part = [] ∧ bytes = [] ∧ tail = [] := by simpa using split
    exact ⟨0, [], d, own, le_rfl, partway, rfl, rfl, holds⟩
  | @cons packet m packets maps pack packs ih =>
    rw [List.flatten_cons] at split
    by_cases long : packet.length ≤ (part ++ bytes).length
    · -- the packet is completed and dispatched, and the rest begins with the next packet
      obtain ⟨rest, hrest⟩ := List.prefix_of_prefix_length_le ⟨_, rfl⟩ ⟨tail, split⟩ long
      obtain ⟨box, wf, map, run⟩ := pack.run dispatch own rest
      obtain ⟨⟨ret, held, mem, own₁⟩, dispatched, hret, hmem, holds₁⟩ :=
        keeps m maps box own holds wf map
      simp only at hret hmem holds₁
      have finish : Decoder.finishBox dispatch ⟨.keyLenHigh, some box, plenty, own⟩ =
          .ok (.ongoing (.fresh own₁)) := by
        simp only [Decoder.finishBox, dispatched, hret, hmem]
        rfl
      have splitRest : [] ++ rest ++ tail = packets.flatten := by
        rw [← hrest, List.append_assoc] at split
        exact List.append_cancel_left split
      obtain ⟨n, part', d', own', le, partway', run', bytes', holds'⟩ :=
        ih partway_nil holds₁ splitRest
      refine ⟨n + 1, part', d', own', by simpa using le, partway', ?_, ?_, holds'⟩
      · rw [← partway.run dispatch own bytes, ← hrest, run, finish, Progress.andThen_ongoing]
        exact run'
      · rw [List.take_succ_cons, List.flatten_cons, List.append_assoc, bytes', ← hrest]
        rfl
    · -- the packet is still incomplete
      obtain ⟨rest, hrest⟩ : part ++ bytes <+: packet :=
        List.prefix_of_prefix_length_le ⟨tail, split⟩ ⟨_, rfl⟩ (by omega)
      have more : rest ≠ [] := by
        rintro rfl
        rw [List.append_nil] at hrest
        exact long (by rw [hrest])
      obtain ⟨d', partway'⟩ := pack.partway hrest more
      refine ⟨0, part ++ bytes, d', own, Nat.zero_le _, partway', ?_, rfl, holds⟩
      rw [← partway.run dispatch own bytes, ← List.append_nil (part ++ bytes),
        partway'.run dispatch own]
      rfl

end Deliver

/-! ## The receiving end of a channel -/

/-- The receiver was handed the first `delivered` bytes of what was sent. It has dispatched
`read` packets and parsed a part of the next one. -/
structure Receives (sent : List (List UInt8)) (delivered read : Nat) (now : Consumer σ) : Prop where
  read_le : read ≤ sent.length
  delivered_le : delivered ≤ sent.flatten.length
  parsed : ∃ part d, Partway part d ∧ Represents now (d.withOwn now.own) ∧
    (sent.take read).flatten ++ part = sent.flatten.take delivered

namespace Receives

variable {sent : List (List UInt8)} {delivered read : Nat} {now : Consumer σ} {maps : List BoxMap}

/-- A fresh proto, before anything was sent. -/
theorem fresh (keyData : Buffer (256 + 1)) (valData : Buffer (256 * 256)) (own : σ) :
    Receives [] 0 0 ⟨.fresh keyData valData (AmpBox.new hashString), plenty, own⟩ :=
  ⟨le_rfl, le_rfl, [], .fresh (), partway_nil, .fresh rfl _ _, rfl⟩

theorem noError (receives : Receives sent delivered read now) : now.proto.error = 0 := by
  obtain ⟨part, d, -, rep, -⟩ := receives.parsed
  exact rep.noError

theorem mem (receives : Receives sent delivered read now) : now.mem = plenty := by
  obtain ⟨part, d, partway, rep, -⟩ := receives.parsed
  exact rep.mem.trans partway.mem

/-- What the owner of the receiver does by itself does not touch the parser. -/
theorem keep (receives : Receives sent delivered read now) (own : σ) :
    Receives sent delivered read ⟨now.proto, plenty, own⟩ := by
  obtain ⟨part, d, partway, rep, split⟩ := receives.parsed
  exact ⟨receives.read_le, receives.delivered_le, part, d, partway,
    ⟨rep.noError, rep.atPhase, rep.box, partway.mem.symm, rfl⟩, split⟩

/-- Sending more does not change what was received. -/
theorem send (receives : Receives sent delivered read now) {sent' : List (List UInt8)}
    (more : sent <+: sent') : Receives sent' delivered read now := by
  obtain ⟨more, rfl⟩ := more
  obtain ⟨part, d, partway, rep, split⟩ := receives.parsed
  have read_le := receives.read_le
  have delivered_le := receives.delivered_le
  refine ⟨by simp; omega, by simp at delivered_le ⊢; omega, part, d, partway, rep, ?_⟩
  rw [List.take_append_of_le_length read_le, List.flatten_append,
    List.take_append_of_le_length delivered_le, split]

section Deliver

variable (dispatch : DispatchBox σ) {Q : List BoxMap → σ → Prop}
  (keeps : ∀ m pending (box : AmpBox) own, Q (m :: pending) own → box.WF → box.toMap = m →
    ∃ r, dispatch plenty (some box) own = .ok r ∧ r.ret = 0 ∧ r.mem = plenty ∧ Q pending r.own)
include keeps

/-- The rule for chunks: the next bytes of the stream are consumed without an error, and what
dispatching one packet keeps still holds, of the packets that are left. -/
theorem deliver (receives : Receives sent delivered read now)
    (packs : List.Forall₂ IsPacket sent maps) (holds : Q (maps.drop read) now.own) {n : Nat}
    (room : delivered + n ≤ sent.flatten.length) :
    ∃ read' after,
      ampConsumeBytes dispatch now ((sent.flatten.drop delivered).take n) = .ok (0, after) ∧
      Receives sent (delivered + n) read' after ∧ Q (maps.drop read') after.own := by
  obtain ⟨part, d, partway, rep, split⟩ := receives.parsed
  have next : part ++ (sent.flatten.drop delivered).take n ++
      (sent.flatten.drop delivered).drop n = (sent.drop read).flatten := by
    have all : (sent.take read).flatten ++ (sent.drop read).flatten = sent.flatten := by
      rw [← List.flatten_append, List.take_append_drop]
    rw [← List.take_append_drop delivered sent.flatten, ← split, List.append_assoc] at all
    rw [List.append_assoc, List.take_append_drop]
    exact (List.append_cancel_left all).symm
  obtain ⟨m, part', d', own', le, partway', run, bytes, holds'⟩ :=
    partway.deliver dispatch keeps (List.forall₂_drop read packs) holds next
  have consumed := rep.consume_eq dispatch ((sent.flatten.drop delivered).take n)
  rw [run] at consumed
  obtain ⟨⟨ret, after⟩, hconsume, hret, rep'⟩ := consumed
  obtain rfl : ret = 0 := hret
  have own_eq : after.own = own' := rep'.own
  rw [← own_eq] at rep' holds'
  refine ⟨read + m, after, hconsume, ⟨?_, room, part', d', partway', rep', ?_⟩, ?_⟩
  · rw [List.length_drop] at le
    have := receives.read_le
    omega
  · rw [List.take_add, List.flatten_append, List.append_assoc, bytes, ← List.append_assoc, split,
      ← List.take_add]
  · rwa [← List.drop_drop]

end Deliver

end Receives

end LibAmp
