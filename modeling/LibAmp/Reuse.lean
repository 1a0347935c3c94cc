import LibAmp.CallFailure
import LibAmp.Packets

/-!
# Calls that share their arguments

`amp_call` and `amp_call_no_answer` leave their special keys in the box of arguments they were
given. A later call overwrites or deletes them, so its packet depends on the other entries only.

## Main results

* `Reused.keeps` — earlier calls change nothing but the two special keys.
* `call_packet_independent` — the packet of a call whose arguments were used before.
-/

namespace LibAmp

/-! ## The entries a call does not touch -/

/-- The maps agree on every key besides `_command` and `_ask`. -/
def SameOthers (m m' : BoxMap) : Prop :=
  ∀ key, key ≠ Key.command → key ≠ Key.ask → m.lookup key = m'.lookup key

namespace SameOthers

variable {m m' m'' : BoxMap}

theorem refl (m : BoxMap) : SameOthers m m := fun _ _ _ => rfl

theorem trans (h : SameOthers m m') (h' : SameOthers m' m'') : SameOthers m m'' :=
  fun key command ask => (h key command ask).trans (h' key command ask)

theorem insert {key : CString} (special : key = Key.command ∨ key = Key.ask)
    (value : List UInt8) : SameOthers (m.insert key value) m := by
  intro k command ask
  apply Finmap.lookup_insert_of_ne
  rintro rfl
  exact special.elim command ask

theorem erase_ask (m : BoxMap) : SameOthers (m.erase Key.ask) m :=
  fun _ _ ask => Finmap.lookup_erase_ne ask

/-- With both special keys overwritten nothing else is left of the difference. -/
theorem asked (h : SameOthers m m') (command ask : List UInt8) :
    (m.insert Key.command command).insert Key.ask ask =
      (m'.insert Key.command command).insert Key.ask ask := by
  apply Finmap.ext_lookup
  intro key
  by_cases isAsk : key = Key.ask
  · rw [isAsk, Finmap.lookup_insert, Finmap.lookup_insert]
  by_cases isCommand : key = Key.command
  · rw [Finmap.lookup_insert_of_ne _ isAsk, Finmap.lookup_insert_of_ne _ isAsk, isCommand,
      Finmap.lookup_insert, Finmap.lookup_insert]
  · rw [Finmap.lookup_insert_of_ne _ isAsk, Finmap.lookup_insert_of_ne _ isAsk,
      Finmap.lookup_insert_of_ne _ isCommand, Finmap.lookup_insert_of_ne _ isCommand,
      h key isCommand isAsk]

/-- The same with `_ask` deleted. -/
theorem told (h : SameOthers m m') (command : List UInt8) :
    (m.insert Key.command command).erase Key.ask =
      (m'.insert Key.command command).erase Key.ask := by
  apply Finmap.ext_lookup
  intro key
  by_cases isAsk : key = Key.ask
  · rw [isAsk, Finmap.lookup_erase, Finmap.lookup_erase]
  by_cases isCommand : key = Key.command
  · rw [Finmap.lookup_erase_ne isAsk, Finmap.lookup_erase_ne isAsk, isCommand,
      Finmap.lookup_insert, Finmap.lookup_insert]
  · rw [Finmap.lookup_erase_ne isAsk, Finmap.lookup_erase_ne isAsk,
      Finmap.lookup_insert_of_ne _ isCommand, Finmap.lookup_insert_of_ne _ isCommand,
      h key isCommand isAsk]

end SameOthers

/-! ## What earlier calls leave in the box -/

/-- The box is well formed and agrees with the one from before on everything but the special
keys. -/
def AmpBox.Keeps (args args' : AmpBox) : Prop :=
  args'.WF ∧ SameOthers args'.toMap args.toMap

variable {U : Type} {write : WriteHandler U} {proto : Dispatcher} {mem : Mem} {args args' : AmpBox}
  {command : CString} {func arg : Nat} {own : U} {r : Called U}

/-- Storing one of the special keys, whether that succeeds or not. -/
theorem AmpBox.WF.putSpecial (wf : args.WF) {key : CString}
    (special : key = Key.command ∨ key = Key.ask) {buf : List UInt8} {n : Int}
    (room : n ≤ buf.length) {p : PutResult}
    (h : ampPutBuf mem (some args) key buf n = .ok p) :
    ∃ args', p.box = some args' ∧ args.Keeps args' := by
  obtain ⟨box', put, wf', map⟩ := wf.putBuf mem key room
  rw [put] at h
  cases h
  refine ⟨box', rfl, wf', ?_⟩
  rw [map]
  unfold BoxMap.put
  split
  · exact .refl _
  split
  · exact .refl _
  split
  · exact .refl _
  split
  · exact .insert special _
  split
  · exact .refl _
  · exact .insert special _

theorem AmpBox.Keeps.trans {args'' : AmpBox} (h : args.Keeps args') (h' : args'.Keeps args'') :
    args.Keeps args'' :=
  ⟨h'.1, h'.2.trans h.2⟩

theorem callWrite_args {askKey : Int32} {cb : Option Callback} {askKeyRet : Option UInt32}
    (h : callWrite write askKey cb proto args mem own askKeyRet = .ok r) : r.args = some args := by
  unfold callWrite at h
  split at h
  · cases h
  · cases h
    cases cb <;> rfl
  · split at h
    · cases h
    · cases h
      rfl

theorem ampCall_keeps (wf : args.WF)
    (h : ampCall write proto mem command (some args) func arg own = .ok r)
    (left : r.args = some args') : args.Keeps args' := by
  unfold ampCall at h
  split at h
  · cases h
  next p put =>
  obtain ⟨box, stored, keeps⟩ := wf.putSpecial (.inl rfl) le_rfl put
  simp only [stored, ampNextAskKey] at h
  split at h
  · cases h
    cases left
    exact keeps
  split at h
  · cases h
    cases left
    exact keeps
  split at h
  · cases h
    cases left
    exact keeps
  split at h
  · cases h
  next p' put' =>
  obtain ⟨box', stored', keeps'⟩ := keeps.1.putSpecial (.inr rfl) le_rfl put'
  simp only [stored'] at h
  split at h
  · cases h
    cases left
    exact keeps.trans keeps'
  · obtain rfl := Option.some.inj ((callWrite_args h).symm.trans left)
    exact keeps.trans keeps'

theorem ampCallNoAnswer_keeps (wf : args.WF)
    (h : ampCallNoAnswer write proto mem command (some args) own = .ok r)
    (left : r.args = some args') : args.Keeps args' := by
  unfold ampCallNoAnswer at h
  split at h
  · cases h
  next p put =>
  obtain ⟨box, stored, keeps⟩ := wf.putSpecial (.inl rfl) le_rfl put
  rw [stored] at h
  split at h
  · cases h
    cases left
    exact keeps
  · obtain rfl := Option.some.inj ((callWrite_args h).symm.trans left)
    obtain ⟨wf', erased, -⟩ := keeps.1.delKey Key.ask
    refine keeps.trans ⟨wf', ?_⟩
    rw [erased]
    exact .erase_ask _

/-- The box `args` after any calls that were given it, whether they succeeded or failed, with any
protos, handlers and allocators. -/
inductive Reused (args : AmpBox) : AmpBox → Prop where
  | unused : Reused args args
  | called {U : Type} {write : WriteHandler U} {proto : Dispatcher} {mem : Mem}
    {command : CString} {func arg : Nat} {own : U} {r : Called U} {args' args'' : AmpBox}
    (earlier : Reused args args')
    (ran : ampCall write proto mem command (some args') func arg own = .ok r)
    (left : r.args = some args'') : Reused args args''
  | told {U : Type} {write : WriteHandler U} {proto : Dispatcher} {mem : Mem}
    {command : CString} {own : U} {r : Called U} {args' args'' : AmpBox}
    (earlier : Reused args args')
    (ran : ampCallNoAnswer write proto mem command (some args') own = .ok r)
    (left : r.args = some args'') : Reused args args''

theorem Reused.keeps (wf : args.WF) (reused : Reused args args') : args.Keeps args' := by
  induction reused with
  | unused => exact ⟨wf, .refl _⟩
  | called _ ran left ih => exact ih.trans (ampCall_keeps ih.1 ran left)
  | told _ ran left ih => exact ih.trans (ampCallNoAnswer_keeps ih.1 ran left)

/-! ## The packet of the next call -/

/-- The arguments of a call without an answer. -/
def AmpBox.telling (args : AmpBox) (command : CString) : AmpBox :=
  (ampDelKey (args.add Key.command command.bytes) Key.ask).1

theorem AmpBox.WF.telling (wf : args.WF) (short : command.bytes.length ≤ maxValueLength) :
    (args.telling command).WF ∧ (args.telling command).toMap =
      (args.toMap.insert Key.command command.bytes).erase Key.ask := by
  obtain ⟨-, wf', map⟩ := wf.add (storable_command short)
  obtain ⟨wf'', erased, -⟩ := wf'.delKey Key.ask
  exact ⟨wf'', erased.trans (by rw [map])⟩

variable (write proto own) in
/-- With memory to spare, a call whose command fits a value comes to writing its packet. -/
theorem ampCallNoAnswer_short (wf : args.WF) (short : command.bytes.length ≤ maxValueLength) :
    ampCallNoAnswer write proto plenty command (some args) own =
      callWrite write (-1) none proto (args.telling command) plenty own none := by
  obtain ⟨put, -, -⟩ := wf.add (storable_command short)
  have put : ampPutCstring plenty (some args) Key.command command = _ := put
  simp only [ampCallNoAnswer, put, ne_eq, not_true_eq_false, ↓reduceIte]
  rfl

/-- A command that does not fit a value is refused. -/
theorem ampCallNoAnswer_long (long : maxValueLength < command.bytes.length) :
    ampCallNoAnswer write proto mem command (some args) own =
      .ok ⟨ampBadValSize, none, proto, some args, mem, own⟩ := by
  have key : ¬ (strlen Key.command > maxKeyLength ∨ strlen Key.command = 0) := by decide
  have put : ampPutCstring mem (some args) Key.command command = _ := ampPutBytes_long key long
  simp only [ampCallNoAnswer, put, ampBadValSize_ne_zero, ne_eq, not_false_eq_true, ↓reduceIte,
    callFailed]

/-- The box still has its command in it. -/
theorem AmpBox.WF.telling_numKeys (wf : args.WF)
    (short : command.bytes.length ≤ maxValueLength) : ampNumKeys (args.telling command) ≠ 0 := by
  obtain ⟨wf', map⟩ := wf.telling short
  have commanded : Key.command ∈ (args.telling command).toMap := by
    rw [map, Finmap.mem_erase]
    exact ⟨by decide, Finmap.mem_insert.2 (.inl rfl)⟩
  exact wf'.numKeys_ne_zero commanded

variable (write proto own) in
theorem ampCallNoAnswer_eq (wf : args.WF) (short : command.bytes.length ≤ maxValueLength)
    (fits : (serializedBytes (args.telling command)).length ≤ intMax) :
    ampCallNoAnswer write proto plenty command (some args) own =
      Called.written write proto (serializedBytes (args.telling command)) own none
        (args.telling command) plenty := by
  have serialized := (wf.telling short).1.serialize (wf.telling_numKeys short) fits
  rw [ampCallNoAnswer_short write proto own wf short, callWrite, serialized]
  rfl

/-- However its arguments were used before, the packet of a call consists of their other entries
and of the special keys of this call. A call that wants an answer has its callback in the table
when the packet is written; one that does not leaves the table alone. -/
theorem call_packet_independent (write : WriteHandler U) (proto : Dispatcher) (func arg : Nat)
    (own : U) (wf : args.WF) (reused : Reused args args')
    (short : command.bytes.length ≤ maxValueLength) (protoWf : proto.WF) :
    ((serializedBytes (args'.asking command (proto.lastAskKey + 1))).length ≤ intMax →
      ∃ packet key called left, key = proto.lastAskKey + 1 ∧
        DecodesTo packet
          ((args.toMap.insert Key.command command.bytes).insert Key.ask
            (Decimal.render key.toNat)) ∧
        called.outstanding.lookup key = some ⟨key.toInt32, func, arg⟩ ∧
        called.write = proto.write ∧
        ampCall write proto plenty command (some args') func arg own =
          Called.written write called packet own (some key) left plenty ∧
        ∀ wfunc warg, proto.write = .installed wfunc warg →
          ampCall write proto plenty command (some args') func arg own =
            .ok ⟨(write wfunc warg packet own).1, some key, called, some left, plenty,
              (write wfunc warg packet own).2⟩) ∧
      ((serializedBytes (args'.telling command)).length ≤ intMax →
        ∃ packet left,
          DecodesTo packet ((args.toMap.insert Key.command command.bytes).erase Key.ask) ∧
          ampCallNoAnswer write proto plenty command (some args') own =
            Called.written write proto packet own none left plenty ∧
          ∀ wfunc warg, proto.write = .installed wfunc warg →
            ampCallNoAnswer write proto plenty command (some args') own =
              .ok ⟨(write wfunc warg packet own).1, none, proto, some left, plenty,
                (write wfunc warg packet own).2⟩) := by
  obtain ⟨wf', same⟩ := reused.keeps wf
  constructor
  · intro fits
    obtain ⟨-, -, asking, map⟩ := wf'.asking (proto.lastAskKey + 1) short
    have reaches : ReachesWrite proto plenty command args' := ⟨short, Mem.serves_plenty _, fits⟩
    refine ⟨_, _, proto.called func arg, _, rfl, ?_, ?_, rfl, reaches.ampCall_eq wf' func arg own,
      fun wfunc warg installed =>
        (reaches.ampCall_eq wf' func arg own).trans (Called.written_installed installed)⟩
    · have decodes := asking.decodesTo
      rw [map, same.asked, askBytes, snprintf_decimal] at decodes
      exact decodes
    · rw [(protoWf.called func arg).2, Finmap.lookup_insert]
  · intro fits
    obtain ⟨telling, map⟩ := wf'.telling short
    have written := ampCallNoAnswer_eq write proto own wf' short fits
    refine ⟨_, _, ?_, written,
      fun wfunc warg installed => written.trans (Called.written_installed installed)⟩
    have decodes := telling.decodesTo
    rw [map, same.told] at decodes
    exact decodes

def mulCommand : CString := ⟨ascii "mul", by decide⟩

/-- The arguments of a call that was refused, used again for a call of either kind. -/
theorem call_packet_independent_refused :
    ∃ (args' : AmpBox) (proto called : Dispatcher) (packet packet' : List UInt8)
        (left left' : AmpBox),
      Reused (AmpBox.new hashString) args' ∧ Key.ask ∈ args'.toMap ∧
      DecodesTo packet
        ((Finmap.insert Key.command mulCommand.bytes ∅).insert Key.ask (Decimal.render 1)) ∧
      called.outstanding.lookup 1 = some ⟨1, 3, 4⟩ ∧
      ampCall refuseWrite proto plenty mulCommand (some args') 3 4 () =
        .ok ⟨1, some 1, called, some left, plenty, ()⟩ ∧
      DecodesTo packet' ((Finmap.insert Key.command mulCommand.bytes ∅).erase Key.ask) ∧
      ampCallNoAnswer refuseWrite proto plenty mulCommand (some args') () =
        .ok ⟨1, none, proto, some left', plenty, ()⟩ := by
  obtain ⟨proto, wf, lastAskKey, installed, -, ran⟩ := refusedCall
  have reused : Reused (AmpBox.new hashString) _ := .called .unused ran rfl
  obtain ⟨-, -, -, map⟩ := (AmpBox.wf_new hashString).asking (proto.lastAskKey + 1)
    (show (CString.mk (ascii "sum") (by decide)).bytes.length ≤ maxValueLength by decide)
  obtain ⟨asks, tells⟩ := call_packet_independent refuseWrite proto 3 4 ()
    (AmpBox.wf_new hashString) reused
    (show mulCommand.bytes.length ≤ maxValueLength by decide) wf
  obtain ⟨packet, key, called, left, next, decodes, found, -, -, asked⟩ :=
    asks (by rw [lastAskKey]; decide)
  obtain rfl : key = 1 := by rw [next, lastAskKey]; rfl
  obtain ⟨packet', left', decodes', -, told⟩ := tells (by rw [lastAskKey]; decide)
  rw [AmpBox.toMap_new] at decodes decodes'
  refine ⟨_, proto, called, packet, packet', left, left', reused, ?_, decodes, found,
    asked 0 0 installed, decodes', told 0 0 installed⟩
  rw [map]
  exact Finmap.mem_insert.2 (.inl rfl)

end LibAmp
