import Mathlib.Algebra.Order.BigOperators.Group.List
import Mathlib.Algebra.Order.Group.Nat
import LibAmp.Lib.Ledger
import LibAmp.CommandDispatch
import LibAmp.RoundTrip
import LibAmp.Session

/-!
# Where nothing faults

Once a write handler is set no inbound box makes the dispatcher fault, whatever the allocator
refuses: a packet of its own, the error for an unknown command, has three entries and always fits
a C `int`. A call faults at most when its packet does not fit one. So every run of responders
comes to its end (`ResponderEvent.run_ok`), and every session whose packets fit
(`Session.run_ok`).
-/

namespace LibAmp

variable {U : Type}

/-! ## Serializing -/

theorem length_encodeKeyValue_le (p : AmpKeyValue) :
    (encodeKeyValue p).length ≤ 4 + maxKeyLength + maxValueLength := by
  have length := length_encodeKeyValue p
  have keyLe := p.key_le
  have valueLe := p.value_le
  rw [p.keySize_eq, p.valueSize_eq] at length
  omega

theorem AmpBox.WF.length_serializedBytes_le {box : AmpBox} (wf : box.WF) :
    (serializedBytes box).length ≤
      2 + box.toMap.keys.card * (4 + maxKeyLength + maxValueLength) := by
  have card : box.toMap.keys.card = box.entries.length := by
    have count := wf.numKeys
    rw [ampNumKeys, wf.length_eq] at count
    exact (Int.ofNat.inj count).symm
  have records : (box.entries.flatMap encodeKeyValue).length ≤
      box.entries.length * (4 + maxKeyLength + maxValueLength) := by
    rw [List.length_flatMap]
    have bound := List.sum_le_card_nsmul (box.entries.map fun p => (encodeKeyValue p).length)
      (4 + maxKeyLength + maxValueLength) fun n hn => by
        obtain ⟨p, -, rfl⟩ := List.mem_map.1 hn
        exact length_encodeKeyValue_le p
    rwa [List.length_map, smul_eq_mul] at bound
  rw [card, serializedBytes, List.length_append]
  simp only [List.length_cons, List.length_nil]
  omega

/-- The packet of a few entries always fits a C `int`. -/
theorem AmpBox.WF.fits_of_card_le {box : AmpBox} (wf : box.WF)
    (few : box.toMap.keys.card ≤ 3) : (serializedBytes box).length ≤ intMax := by
  have length := wf.length_serializedBytes_le
  simp only [maxKeyLength, maxValueLength] at length
  simp only [intMax]
  omega

/-- A packet that fits a C `int` is not written past its allocation. -/
theorem ampSerializeBox_ok (mem : Mem) {box : AmpBox}
    (fits : (serializedBytes box).length ≤ intMax) :
    ∃ packet mem', ampSerializeBox mem box = .ok (packet, mem') := by
  have size := serializedSize_toInt fits
  have room : ¬ ((serializedBytes box).length : Int) > (serializedSize box).toInt := by omega
  rw [ampSerializeBox_eq, if_neg room]
  split
  · exact ⟨_, _, rfl⟩
  split
  · exact ⟨_, _, rfl⟩
  · exact ⟨_, _, rfl⟩

/-! ## The error for an unknown command -/

/-- Storing a whole buffer does not fault, and adds at most one entry. -/
theorem AmpBox.WF.putBytes {box : AmpBox} (wf : box.WF) (mem : Mem) (key : CString)
    (buf : List UInt8) :
    ∃ ret box' mem', ampPutBytes mem (some box) key buf buf.length = .ok ⟨ret, some box', mem'⟩ ∧
      box'.WF ∧ box'.toMap.keys.card ≤ box.toMap.keys.card + 1 := by
  obtain ⟨box', put, wf', map⟩ := wf.putBuf mem key (le_refl (buf.length : Int))
  exact ⟨_, box', _, put, wf', map ▸ BoxMap.card_put_le _ _ _ _ _⟩

section Installed

variable (write : WriteHandler U) {proto : Dispatcher} {wfunc warg : Nat}
  (installed : proto.write = .installed wfunc warg)
include installed

theorem ampSendUnhandledCommandError_ok (mem : Mem) (command askKey : AmpChunk) (own : U) :
    ∃ w, ampSendUnhandledCommandError write proto mem command askKey own = .ok w := by
  unfold ampSendUnhandledCommandError ampNewBox
  rcases malloc .errorBox mem with ⟨_ | _, mem₀⟩
  · exact ⟨_, rfl⟩
  obtain ⟨ret₁, box₁, mem₁, put₁, wf₁, card₁⟩ :=
    (AmpBox.wf_new hashString).putBytes mem₀ Key.error askKey.value
  simp only [AmpChunk.size, put₁]
  split
  · exact ⟨_, rfl⟩
  obtain ⟨ret₂, box₂, mem₂, put₂, wf₂, card₂⟩ :=
    wf₁.putBytes mem₁ Key.errorCode errorUnhandled.bytes
  have code : ampPutCstring mem₁ (some box₁) Key.errorCode errorUnhandled =
      .ok ⟨ret₂, some box₂, mem₂⟩ := put₂
  simp only [code]
  split
  · exact ⟨_, rfl⟩
  rcases malloc .description mem₂ with ⟨_ | _, mem₃⟩
  · exact ⟨_, rfl⟩
  obtain ⟨ret₄, box₄, mem₄, put₄, wf₄, card₄⟩ :=
    wf₂.putBytes mem₃ Key.errorDescr (unhandledPrefix ++ command.value ++ unhandledSuffix)
  simp only [put₄]
  split
  · exact ⟨_, rfl⟩
  have three : box₄.toMap.keys.card ≤ 3 := by
    rw [AmpBox.toMap_new] at card₁
    have none : (∅ : BoxMap).keys.card = 0 := rfl
    omega
  obtain ⟨packet, mem₅, serialized⟩ := ampSerializeBox_ok mem₄ (wf₄.fits_of_card_le three)
  simp only [serializeAndSend, serialized, installed]
  cases packet with
  | error err => exact ⟨_, rfl⟩
  | ok packet => exact ⟨_, rfl⟩

/-! ## Dispatching -/

omit installed in
theorem completeCall_write (held : Option AmpBox) (mem : Mem) (own : U) (askKey : Int32)
    (result : AmpResult) (unknown : Int) :
    (completeCall proto held mem own askKey result unknown).proto.write = proto.write := by
  unfold completeCall
  grind

/-- Dispatching a box does not fault, whatever the allocator refuses. -/
theorem ampProcessFullPacket_ok (held : Option AmpBox) (mem : Mem) (box : AmpBox) (own : U) :
    ∃ p, ampProcessFullPacket write proto held mem box own = .ok p ∧
      p.proto.write = proto.write := by
  unfold ampProcessFullPacket
  split
  · exact ⟨_, rfl, rfl⟩
  split
  · split
    · exact ⟨_, rfl, rfl⟩
    · next request mem₁ hrequest =>
      split
      · exact ⟨_, rfl, rfl⟩
      · split
        · exact ⟨_, rfl, rfl⟩
        · next askKey hask =>
          obtain ⟨w, sent⟩ := ampSendUnhandledCommandError_ok write installed mem₁
            request.command askKey own
          rw [sent]
          exact ⟨_, rfl, rfl⟩
  split
  · split
    · exact ⟨_, rfl, rfl⟩
    · exact ⟨_, rfl, completeCall_write ..⟩
  split
  · split
    · exact ⟨_, rfl, rfl⟩
    · exact ⟨_, rfl, completeCall_write ..⟩
  · exact ⟨_, rfl, rfl⟩

/-! ## Responders -/

theorem ResponderEvent.step_ok (own : U) (event : ResponderEvent) :
    ∃ proto' own', event.step write proto own = .ok (proto', own') ∧
      proto'.write = proto.write := by
  cases event with
  | add command func arg => exact ⟨_, own, rfl, rfl⟩
  | remove command => exact ⟨_, own, rfl, rfl⟩
  | inbound box =>
    obtain ⟨p, run, same⟩ := ampProcessFullPacket_ok write installed (some box) plenty box own
    exact ⟨p.proto, p.own, by rw [step, run], same⟩

/-- Registrations, removals and inbound boxes never fault. -/
theorem ResponderEvent.run_ok (own : U) (events : List ResponderEvent) :
    ∃ reached, ResponderEvent.run write proto own events = .ok reached := by
  induction events generalizing proto own with
  | nil => exact ⟨_, rfl⟩
  | cons event events ih =>
    obtain ⟨proto', own', step, same⟩ := ResponderEvent.step_ok write installed own event
    obtain ⟨reached, run⟩ := ih (same.trans installed) own'
    exact ⟨reached, by simp only [ResponderEvent.run, step, run]⟩

/-! ## Calls and sessions -/

theorem ampCall_ok {command : CString} {args : AmpBox} (func arg : Nat) (own : U) (wf : args.WF)
    (fits : (serializedBytes (args.asking command (proto.lastAskKey + 1))).length ≤ intMax) :
    ∃ r, ampCall write proto plenty command (some args) func arg own = .ok r ∧
      r.proto.write = proto.write := by
  by_cases short : command.bytes.length ≤ maxValueLength
  · rw [ampCall_short write proto func arg own wf short, callWrite]
    obtain ⟨packet, mem, serialized⟩ := ampSerializeBox_ok plenty fits
    rw [serialized]
    cases packet with
    | error err => exact ⟨_, rfl, rfl⟩
    | ok packet =>
      simp only [ampDoWrite, show (proto.called func arg).write = _ from installed]
      exact ⟨_, rfl, installed.symm ▸ rfl⟩
  · exact ⟨_, ampCall_long (by omega), rfl⟩

end Installed

/-- The packet of a call fits a C `int`, whatever its ask key. -/
def SessionEvent.Fits : SessionEvent → Prop
  | .call command args _ _ =>
    ∀ key, (serializedBytes (args.asking command key)).length ≤ intMax
  | _ => True

variable (write : WriteHandler U) {s : Session U} {wfunc warg : Nat}

theorem SessionEvent.step_ok (installed : s.proto.write = .installed wfunc warg)
    {event : SessionEvent} (wf : event.WF) (fits : event.Fits) :
    ∃ shown s', event.step write s = .ok (shown, s') ∧ s'.proto.write = s.proto.write := by
  have progress (p : Progressed U) : (s.progress p).2.proto.write = p.proto.write := by
    unfold Session.progress
    grind
  cases event with
  | call command args func arg =>
    obtain ⟨r, run, same⟩ := ampCall_ok write installed func arg s.own wf (fits _)
    exact ⟨_, _, by rw [step, run], same⟩
  | cancel askKey => exact ⟨_, _, rfl, (progress _).trans (completeCall_write ..)⟩
  | reset => exact ⟨_, _, rfl, rfl⟩
  | inbound box =>
    obtain ⟨p, run, same⟩ :=
      ampProcessFullPacket_ok write installed s.proto.box plenty box s.own
    exact ⟨_, _, by rw [step, run], (progress p).trans same⟩
  | returned =>
    simp only [step]
    split
    · exact ⟨_, _, rfl, rfl⟩
    · exact ⟨_, _, rfl, rfl⟩

/-- A session whose packets fit a C `int` never faults. -/
theorem Session.run_ok (installed : s.proto.write = .installed wfunc warg)
    {events : List SessionEvent} (wf : ∀ event ∈ events, event.WF)
    (fits : ∀ event ∈ events, event.Fits) :
    ∃ entries after, Session.run write s events = .ok (entries, after) := by
  induction events generalizing s with
  | nil => exact ⟨[], s, rfl⟩
  | cons event events ih =>
    obtain ⟨shown, s', step, same⟩ :=
      SessionEvent.step_ok write installed (wf event (by simp)) (fits event (by simp))
    obtain ⟨entries, after, run⟩ := ih (same.trans installed)
      (fun event h => wf event (by simp [h])) (fun event h => fits event (by simp [h]))
    exact ⟨event.entry s shown s' :: entries, after, by simp only [Session.run, step, run]⟩

end LibAmp
