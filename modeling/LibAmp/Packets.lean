import LibAmp.Delivery

/-!
# What a packet says

A packet says what a receiver makes of it: a new proto that is given its bytes dispatches one box,
and the map of that box is what the packet decodes to.
-/

namespace LibAmp

/-- Any new proto that is given the packet dispatches one box, with this map, and stays out of the
error state. -/
def DecodesTo (packet : List UInt8) (m : BoxMap) : Prop :=
  ∀ (keyData : Buffer (256 + 1)) (valData : Buffer (256 * 256)) (proto : AmpProto),
    ampNewProto plenty keyData valData = .ok (some proto, plenty) →
      ∃ (box : AmpBox) (after : Consumer (List (Option AmpBox))),
        ampConsumeBytes recordBoxes ⟨proto.toParser, plenty, []⟩ packet = .ok (0, after) ∧
        after.own = [some box] ∧ box.toMap = m ∧ after.proto.error = 0

theorem IsPacket.decodesTo {packet : List UInt8} {m : BoxMap} (packs : IsPacket packet m) :
    DecodesTo packet m := by
  intro keyData valData proto fresh
  have rep : Represents ⟨proto.toParser, plenty, ([] : List (Option AmpBox))⟩ (.fresh []) :=
    .fresh (ampNewProto_ok fresh).1 _ _
  obtain ⟨box, -, map, run⟩ := packs.run recordBoxes [] []
  have dispatched : (Decoder.fresh []).run recordBoxes packet =
      .ok (.ongoing (.fresh [some box])) := by
    rw [List.append_nil] at run
    exact run
  have consumed := rep.consume_eq recordBoxes packet
  rw [dispatched] at consumed
  obtain ⟨⟨ret, after⟩, consume, zero, repAfter⟩ := consumed
  obtain rfl : ret = 0 := zero
  exact ⟨box, after, consume, repAfter.own, map, repAfter.noError⟩

/-- What is serialized decodes to the map of the box. -/
theorem AmpBox.WF.decodesTo {box : AmpBox} (wf : box.WF) :
    DecodesTo (serializedBytes box) box.toMap :=
  wf.isPacket.decodesTo

end LibAmp
