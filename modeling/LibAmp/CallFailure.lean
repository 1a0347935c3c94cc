import LibAmp.CallSpec

/-!
# What a failed call leaves behind

A call that fails before it writes takes its callback out of the table again. A call whose write
handler refuses the packet does not: it returns the handler's result, and the callback stays.

## Main results

* `failed_call_leaves_nothing_iff` — exactly when a call keeps its promise about the table.
* `failed_call_keeps_callback` — a call that breaks it.
-/

namespace LibAmp

variable {U : Type}

/-- The call gets as far as its write, and the handler is missing or refuses the packet. -/
def WriteRefused (write : WriteHandler U) (proto : Dispatcher) (mem : Mem) (command : CString)
    (args : AmpBox) (own : U) : Prop :=
  ReachesWrite proto mem command args ∧
    (proto.write = .null ∨ ∃ wfunc warg, proto.write = .installed wfunc warg ∧
      (write wfunc warg (serializedBytes (args.asking command (proto.lastAskKey + 1))) own).1 ≠ 0)

/-- A failed call leaves the callbacks as they were, and one that succeeds adds its own. -/
structure LeavesNothing (proto : Dispatcher) (func arg : Nat) (r : Called U) : Prop where
  failed : r.ret ≠ 0 → r.proto.outstanding = proto.outstanding
  succeeded : r.ret = 0 → ∃ key, r.askKey = some key ∧
    r.proto.outstanding = proto.outstanding.insert key ⟨key.toInt32, func, arg⟩

variable {write : WriteHandler U} {proto : Dispatcher} {mem : Mem} {command : CString}
  {args : AmpBox} {func arg : Nat} {own : U} {r : Called U}

/-- A callback under a key that was free is a change. -/
theorem insert_ne_of_absent {m : Finmap (fun _ : UInt32 => Callback)} {key : UInt32}
    (absent : m.lookup key = none) (cb : Callback) : m.insert key cb ≠ m := by
  intro same
  have found : (m.insert key cb).lookup key = some cb := Finmap.lookup_insert m
  rw [same, absent] at found
  cases found

/-- What a call returns that gets as far as its write. -/
theorem ReachesWrite.called (reaches : ReachesWrite proto mem command args) (wf : args.WF)
    (h : ampCall write proto mem command (some args) func arg own = .ok r) :
    r.askKey = some (proto.lastAskKey + 1) ∧ r.proto = proto.called func arg ∧
      (r.ret ≠ 0 ↔ WriteRefused write proto mem command args own) := by
  have same : (proto.called func arg).write = proto.write := rfl
  rw [reaches.ampCall_eq wf, Called.written, ampDoWrite, same] at h
  cases slot : proto.write with
  | uninitialised =>
    rw [slot] at h
    cases h
  | null =>
    rw [slot] at h
    cases h
    exact ⟨rfl, rfl, iff_of_true (show (1 : Int) ≠ 0 by decide) ⟨reaches, .inl slot⟩⟩
  | installed wfunc warg =>
    rw [slot] at h
    cases h
    refine ⟨rfl, rfl, fun failed => ⟨reaches, .inr ⟨wfunc, warg, slot, failed⟩⟩, ?_⟩
    rintro ⟨-, missing | ⟨wfunc', warg', installed, failed⟩⟩
    · rw [slot] at missing
      cases missing
    · rw [slot] at installed
      cases installed
      exact failed

theorem failed_call_leaves_nothing_iff (protoWf : proto.WF) (wf : args.WF)
    (absent : proto.outstanding.lookup (proto.lastAskKey + 1) = none)
    (h : ampCall write proto mem command (some args) func arg own = .ok r) :
    LeavesNothing proto func arg r ↔ ¬ WriteRefused write proto mem command args own := by
  by_cases reaches : ReachesWrite proto mem command args
  · obtain ⟨key, called, refused⟩ := reaches.called wf h
    have registered : r.proto.outstanding = proto.outstanding.insert (proto.lastAskKey + 1)
        ⟨(proto.lastAskKey + 1).toInt32, func, arg⟩ := by
      rw [called]
      exact (protoWf.called func arg).2
    rw [← refused, not_not]
    constructor
    · intro leaves
      by_contra failed
      have same := leaves.failed failed
      rw [registered] at same
      exact insert_ne_of_absent absent _ same
    · intro succeeded
      exact ⟨fun failed => absurd succeeded failed, fun _ => ⟨_, key, registered⟩⟩
  · have restores := ampCall_stops protoWf wf absent reaches h
    refine iff_of_true ⟨fun _ => restores.outstanding, ?_⟩ fun refused => reaches refused.1
    exact fun succeeded => absurd succeeded restores.failed

/-! ## A handler that refuses every packet -/

def refuseWrite : WriteHandler Unit := fun _ _ _ own => (1, own)

/-- A first call to a new proto with such a handler gets as far as its write. -/
theorem refusedCall :
    ∃ proto : Dispatcher, proto.WF ∧ proto.lastAskKey = 0 ∧ proto.write = .installed 0 0 ∧
      proto.outstanding.lookup (proto.lastAskKey + 1) = none ∧
      ampCall refuseWrite proto plenty ⟨ascii "sum", by decide⟩ (some (AmpBox.new hashString))
          1 2 () =
        .ok ⟨1, some (proto.lastAskKey + 1), proto.called 1 2,
          some ((AmpBox.new hashString).asking ⟨ascii "sum", by decide⟩ (proto.lastAskKey + 1)),
          plenty, ()⟩ := by
  obtain ⟨new, hnew⟩ := ampNewProto_plenty (.zeros _) (.zeros _)
  obtain ⟨-, wf, outstanding, -, lastAskKey, -⟩ := ampNewProto_ok hnew
  let proto := ampSetWriteHandler new.toDispatcher 0 0
  have absent : proto.outstanding.lookup (proto.lastAskKey + 1) = none := by
    rw [show proto.outstanding = ∅ from outstanding, Finmap.lookup_empty]
  have reaches : ReachesWrite proto plenty ⟨ascii "sum", by decide⟩ (AmpBox.new hashString) := by
    refine ⟨by decide, Mem.serves_plenty _, ?_⟩
    rw [show proto.lastAskKey = 0 from lastAskKey]
    decide
  exact ⟨proto, ⟨wf.outstanding, wf.responders⟩, lastAskKey, rfl, absent,
    reaches.ampCall_eq (AmpBox.wf_new hashString) 1 2 ()⟩

theorem failed_call_leaves_nothing_iff_refused :
    ∃ (proto : Dispatcher) (r : Called Unit),
      ampCall refuseWrite proto plenty ⟨ascii "sum", by decide⟩ (some (AmpBox.new hashString))
        1 2 () = .ok r ∧
      (LeavesNothing proto 1 2 r ↔ ¬ WriteRefused refuseWrite proto plenty
        ⟨ascii "sum", by decide⟩ (AmpBox.new hashString) ()) := by
  obtain ⟨proto, wf, -, -, absent, called⟩ := refusedCall
  exact ⟨proto, _, called, failed_call_leaves_nothing_iff wf (AmpBox.wf_new _) absent called⟩

/-- The call fails and its callback is in the table. -/
theorem failed_call_keeps_callback :
    ∃ (proto : Dispatcher) (r : Called Unit), proto.WF ∧
      proto.outstanding.lookup (proto.lastAskKey + 1) = none ∧
      ampCall refuseWrite proto plenty ⟨ascii "sum", by decide⟩ (some (AmpBox.new hashString))
        1 2 () = .ok r ∧
      r.ret ≠ 0 ∧ r.proto.outstanding ≠ proto.outstanding := by
  obtain ⟨proto, wf, -, -, absent, called⟩ := refusedCall
  refine ⟨proto, _, wf, absent, called, show (1 : Int) ≠ 0 by decide, ?_⟩
  rw [(wf.called 1 2).2]
  exact insert_ne_of_absent absent _

end LibAmp
