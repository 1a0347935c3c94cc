import LibAmp.DispatchSpec
import LibAmp.RoundTrip

/-!
# What a call does

`amp_call` adds `_command` and `_ask` to the arguments and a callback to the table, and writes
the packet. If the command or the packet is too long, or an allocation fails, the callback is not
in the table when it returns.

## Main results

* `ReachesWrite.ampCall_eq` — a call that gets as far as writing its packet.
* `ampCall_stops` — every other call that returns.
-/

namespace LibAmp

variable {U : Type} {write : WriteHandler U} {proto : Dispatcher} {args : AmpBox}
  {command : CString} {func arg : Nat} {own : U}

/-- The bytes `amp_call` sends along for an ask key. -/
def askBytes (key : UInt32) : List UInt8 := snprintf uintBufLen (Decimal.render key.toNat)

theorem length_askBytes_le (key : UInt32) : (askBytes key).length ≤ 10 := by
  rw [askBytes, snprintf_decimal]
  exact length_decimal_le key

/-- The dispatcher once a call has put its callback into the table. -/
def Dispatcher.called (proto : Dispatcher) (func arg : Nat) : Dispatcher :=
  let key := proto.lastAskKey + 1
  { proto with
    lastAskKey := key
    outstandingRequests :=
      (tablePut plenty proto.outstandingRequests key ⟨key.toInt32, func, arg⟩).2.1 }

theorem Dispatcher.WF.called (wf : proto.WF) (func arg : Nat) :
    (proto.called func arg).WF ∧
      (proto.called func arg).outstanding = proto.outstanding.insert (proto.lastAskKey + 1)
        ⟨(proto.lastAskKey + 1).toInt32, func, arg⟩ := by
  obtain ⟨put, ⟨-, map⟩ | ⟨-, full, -⟩⟩ := wf.outstanding.put plenty (proto.lastAskKey + 1)
    (⟨(proto.lastAskKey + 1).toInt32, func, arg⟩ : Callback)
  · exact ⟨⟨put, wf.responders⟩, map⟩
  · cases full

theorem storable_command (short : command.bytes.length ≤ maxValueLength) :
    Storable Key.command command.bytes :=
  ⟨by decide, by decide, short⟩

theorem storable_askBytes (name : CString)
    (valid : 0 < strlen name ∧ strlen name ≤ maxKeyLength) (key : UInt32) :
    Storable name (askBytes key) :=
  ⟨valid.1, valid.2, (length_askBytes_le key).trans (by decide)⟩

/-- The arguments of a call, once its two special keys are stored in them. -/
def AmpBox.asking (args : AmpBox) (command : CString) (key : UInt32) : AmpBox :=
  (args.add Key.command command.bytes).add Key.ask (askBytes key)

theorem AmpBox.WF.asking (wf : args.WF) (key : UInt32)
    (short : command.bytes.length ≤ maxValueLength) :
    ampPutCstring plenty (some args) Key.command command =
        .ok ⟨0, some (args.add Key.command command.bytes), plenty⟩ ∧
      ampPutUint plenty (some (args.add Key.command command.bytes)) Key.ask key =
        .ok ⟨0, some (args.asking command key), plenty⟩ ∧
      (args.asking command key).WF ∧ (args.asking command key).toMap =
        (args.toMap.insert Key.command command.bytes).insert Key.ask (askBytes key) := by
  obtain ⟨put₁, wf₁, map₁⟩ := wf.add (storable_command short)
  obtain ⟨put₂, wf₂, map₂⟩ := wf₁.add (storable_askBytes Key.ask (by decide) key)
  exact ⟨put₁, put₂, wf₂, by rw [AmpBox.asking, map₂, map₁]⟩

theorem AmpBox.WF.asking_numKeys (wf : args.WF) (key : UInt32)
    (short : command.bytes.length ≤ maxValueLength) :
    ampNumKeys (args.asking command key) ≠ 0 := by
  have commanded := (wf.add (storable_command short)).2.1
  exact commanded.add_numKeys (storable_askBytes Key.ask (by decide) key)

/-- The sites of `amp_call` before it serializes the arguments. -/
def callSites (proto : Dispatcher) (args : BoxMap) : List Site :=
  putSites args Key.command ++
    (.callback :: (tableSites proto.outstandingRequests (proto.lastAskKey + 1) ++
      putSites args Key.ask))

/-- The command that is added to the arguments is not `_ask`. -/
theorem AmpBox.WF.putSites_ask (wf : args.WF) (short : command.bytes.length ≤ maxValueLength) :
    putSites (args.add Key.command command.bytes).toMap Key.ask = putSites args.toMap Key.ask := by
  obtain ⟨-, -, map⟩ := wf.add (storable_command short)
  have apart : Key.ask ≠ Key.command := by decide
  simp only [putSites, map, Finmap.mem_insert, apart, false_or]

variable (write proto func arg own) in
/-- A call whose command fits a value, and whose allocations are served, comes to writing its
packet. -/
theorem ampCall_served (wf : args.WF) (short : command.bytes.length ≤ maxValueLength) {mem : Mem}
    (served : mem.Serves (callSites proto args.toMap)) :
    ampCall write proto mem command (some args) func arg own =
      callWrite write (proto.lastAskKey + 1).toInt32 (some ⟨0, func, arg⟩)
        (proto.called func arg) (args.asking command (proto.lastAskKey + 1))
        (mem.drop (callSites proto args.toMap).length) own (some (proto.lastAskKey + 1)) := by
  have first := storable_command short
  have second := storable_askBytes Key.ask (by decide) (proto.lastAskKey + 1)
  obtain ⟨servedCommand, servedRest⟩ := Mem.serves_append.1 served
  obtain ⟨servedCallback, servedRest⟩ := servedRest
  obtain ⟨servedTable, servedAsk⟩ := Mem.serves_append.1 servedRest
  have put₁ : ampPutCstring mem (some args) Key.command command = _ :=
    wf.putBytes_served first servedCommand
  rw [← wf.putSites_ask short] at servedAsk
  have table : tablePut _ proto.outstandingRequests (proto.lastAskKey + 1)
      (⟨(proto.lastAskKey + 1).toInt32, func, arg⟩ : Callback) = _ := tablePut_served servedTable
  have put₂ : ampPutUint _ (some (args.add Key.command command.bytes)) Key.ask
      (proto.lastAskKey + 1) = _ := (wf.add first).2.1.putBytes_served second servedAsk
  have length : (callSites proto args.toMap).length = (putSites args.toMap Key.command).length +
      1 + (tableSites proto.outstandingRequests (proto.lastAskKey + 1)).length +
      (putSites (args.add Key.command command.bytes).toMap Key.ask).length := by
    rw [wf.putSites_ask short]
    simp only [callSites, List.length_append, List.length_cons]
    omega
  simp only [ampCall, put₁, ne_eq, not_true_eq_false, ↓reduceIte, ampNewCallback, malloc_eq,
    servedCallback, ampNextAskKey, ampPutCallback, toUInt32_toInt32, table, put₂]
  rw [length, ← Mem.drop_drop, ← Mem.drop_drop, ← Mem.drop_drop]
  rfl

variable (write proto func arg own) in
/-- With memory to spare, a call whose command fits a value comes to writing its packet. -/
theorem ampCall_short (wf : args.WF) (short : command.bytes.length ≤ maxValueLength) :
    ampCall write proto plenty command (some args) func arg own =
      callWrite write (proto.lastAskKey + 1).toInt32 (some ⟨0, func, arg⟩)
        (proto.called func arg) (args.asking command (proto.lastAskKey + 1)) plenty own
        (some (proto.lastAskKey + 1)) :=
  ampCall_served write proto func arg own wf short (Mem.serves_plenty _)

/-- A command that does not fit a value is refused. -/
theorem ampCall_long {mem : Mem} (long : maxValueLength < command.bytes.length) :
    ampCall write proto mem command (some args) func arg own =
      .ok ⟨ampBadValSize, none, proto, some args, mem, own⟩ := by
  have key : ¬ (strlen Key.command > maxKeyLength ∨ strlen Key.command = 0) := by decide
  have put : ampPutCstring mem (some args) Key.command command = _ := ampPutBytes_long key long
  simp only [ampCall, put, ampBadValSize_ne_zero, ne_eq, not_false_eq_true, ↓reduceIte,
    callFailed]

/-! ## Calls that stop before they write -/

/-- The call failed, and no callback of its own is left in the table. -/
structure Called.Restores (proto : Dispatcher) (r : Called U) : Prop where
  failed : r.ret ≠ 0
  wf : r.proto.WF
  outstanding : r.proto.outstanding = proto.outstanding
  write : r.proto.write = proto.write

/-- What a call needs to get as far as the write handler: a command that fits a value, memory,
and a packet that fits an `int`. -/
structure ReachesWrite (proto : Dispatcher) (mem : Mem) (command : CString) (args : AmpBox) :
    Prop where
  short : command.bytes.length ≤ maxValueLength
  served : mem.Serves (callSites proto args.toMap ++ [.packet])
  fits : (serializedBytes (args.asking command (proto.lastAskKey + 1))).length ≤ intMax

section Absent

variable (protoWf : proto.WF) (absent : proto.outstanding.lookup (proto.lastAskKey + 1) = none)
include protoWf absent

/-- Popping the callback of the call gives back the table from before. -/
theorem Dispatcher.WF.called_popped (func arg : Nat) :
    ((proto.called func arg).popped (proto.lastAskKey + 1)).WF ∧
      ((proto.called func arg).popped (proto.lastAskKey + 1)).outstanding = proto.outstanding := by
  obtain ⟨called, map⟩ := protoWf.called func arg
  obtain ⟨popped, erased⟩ := called.popped (proto.lastAskKey + 1)
  refine ⟨popped, erased.trans ?_⟩
  rw [map]
  apply Finmap.ext_lookup
  intro key
  by_cases same : key = proto.lastAskKey + 1
  · rw [same, Finmap.lookup_erase, absent]
  · rw [Finmap.lookup_erase_ne same, Finmap.lookup_insert_of_ne _ same]

variable (write func arg own) in
/-- Without memory for one of its keys or for its callback, a call takes back what it did. -/
theorem ampCall_unserved (wf : args.WF) (short : command.bytes.length ≤ maxValueLength)
    {mem : Mem} (refused : ¬ mem.Serves (callSites proto args.toMap)) :
    ∃ r, ampCall write proto mem command (some args) func arg own = .ok r ∧
      r.Restores proto := by
  have first := storable_command short
  have second := storable_askBytes Key.ask (by decide) (proto.lastAskKey + 1)
  by_cases servedCommand : mem.Serves (putSites args.toMap Key.command)
  · have put₁ : ampPutCstring mem (some args) Key.command command = _ :=
      wf.putBytes_served first servedCommand
    cases servedCallback : mem.drop (putSites args.toMap Key.command).length 0 .callback with
    | false =>
      simp only [ampCall, put₁, ne_eq, not_true_eq_false, ↓reduceIte, ampNewCallback, malloc_eq,
        servedCallback]
      exact ⟨_, rfl, enomem_ne_zero, protoWf, rfl, rfl⟩
    | true =>
      by_cases servedTable : ((mem.drop (putSites args.toMap Key.command).length).drop 1).Serves
          (tableSites proto.outstandingRequests (proto.lastAskKey + 1))
      · have table : tablePut _ proto.outstandingRequests (proto.lastAskKey + 1)
            (⟨(proto.lastAskKey + 1).toInt32, func, arg⟩ : Callback) = _ :=
          tablePut_served servedTable
        have refusedAsk : ¬ (((mem.drop (putSites args.toMap Key.command).length).drop 1).drop
            (tableSites proto.outstandingRequests (proto.lastAskKey + 1)).length).Serves
              (putSites (args.add Key.command command.bytes).toMap Key.ask) := by
          intro servedAsk
          rw [wf.putSites_ask short] at servedAsk
          exact refused (Mem.serves_append.2 ⟨servedCommand, servedCallback,
            Mem.serves_append.2 ⟨servedTable, servedAsk⟩⟩)
        obtain ⟨mem', put₂⟩ := (wf.add first).2.1.putBytes_unserved second refusedAsk
        have put₂ : ampPutUint _ (some (args.add Key.command command.bytes)) Key.ask
          (proto.lastAskKey + 1) = _ := put₂
        simp only [ampCall, put₁, ne_eq, not_true_eq_false, ↓reduceIte, ampNewCallback, malloc_eq,
          servedCallback, ampNextAskKey, ampPutCallback, toUInt32_toInt32, table, put₂,
          enomem_ne_zero, not_false_eq_true]
        obtain ⟨popped, same⟩ := protoWf.called_popped absent func arg
        exact ⟨_, rfl, enomem_ne_zero, popped, same, rfl⟩
      · have table : tablePut _ proto.outstandingRequests (proto.lastAskKey + 1)
            (⟨(proto.lastAskKey + 1).toInt32, func, arg⟩ : Callback) = _ :=
          tablePut_unserved servedTable
        have notFound : tableGet proto.outstandingRequests (proto.lastAskKey + 1) = none := by
          rw [protoWf.get, absent]
        have kept : (ampPopCallback proto.outstandingRequests (proto.lastAskKey + 1).toInt32).2 =
            proto.outstandingRequests :=
          congrArg Dispatcher.outstandingRequests (Dispatcher.popped_absent notFound)
        simp only [ampCall, put₁, ne_eq, not_true_eq_false, ↓reduceIte, ampNewCallback, malloc_eq,
          servedCallback, ampNextAskKey, ampPutCallback, toUInt32_toInt32, table, enomem_ne_zero,
          not_false_eq_true, callFailed, kept]
        exact ⟨_, rfl, enomem_ne_zero, ⟨protoWf.outstanding, protoWf.responders⟩, rfl, rfl⟩
  · obtain ⟨mem', put₁⟩ := wf.putBytes_unserved first servedCommand
    have put₁ : ampPutCstring mem (some args) Key.command command = _ := put₁
    simp only [ampCall, put₁, ne_eq, enomem_ne_zero, not_false_eq_true, ↓reduceIte]
    exact ⟨_, rfl, enomem_ne_zero, protoWf, rfl, rfl⟩

end Absent

theorem ampSerializeBox_error {mem mem' : Mem} {box : AmpBox} {err : AmpError}
    (h : ampSerializeBox mem box = .ok (.error err, mem')) : err ≠ 0 := by
  have empty : ampBoxEmpty ≠ 0 := by decide
  rw [ampSerializeBox_eq] at h
  grind [enomem_ne_zero]

/-- A call that does not get as far as its write fails, with its callback taken back. -/
theorem ampCall_stops (protoWf : proto.WF) (wf : args.WF)
    (absent : proto.outstanding.lookup (proto.lastAskKey + 1) = none) {mem : Mem}
    (stops : ¬ ReachesWrite proto mem command args) {r : Called U}
    (h : ampCall write proto mem command (some args) func arg own = .ok r) :
    r.Restores proto := by
  by_cases short : command.bytes.length ≤ maxValueLength
  · by_cases served : mem.Serves (callSites proto args.toMap)
    · rw [ampCall_served write proto func arg own wf short served, callWrite] at h
      split at h
      · cases h
      · next err mem' refused =>
        obtain rfl := Except.ok.inj h
        obtain ⟨popped, same⟩ := protoWf.called_popped absent func arg
        exact ⟨ampSerializeBox_error refused, popped, same, rfl⟩
      · next packet mem' serialized =>
        obtain ⟨-, fits, packetServed⟩ := ampSerializeBox_packet serialized
        exact absurd ⟨short, Mem.serves_append.2 ⟨served, packetServed, trivial⟩, fits⟩ stops
    · obtain ⟨r', called, restores⟩ :=
        ampCall_unserved write func arg own protoWf absent wf short served
      rw [called] at h
      obtain rfl := Except.ok.inj h
      exact restores
  · rw [ampCall_long (by omega)] at h
    obtain rfl := Except.ok.inj h
    exact ⟨ampBadValSize_ne_zero, protoWf, rfl, rfl⟩

/-! ## Calls that write -/

/-- The end of a call that has its packet: what the write handler returns is passed on. -/
def Called.written (write : WriteHandler U) (proto : Dispatcher) (packet : List UInt8) (own : U)
    (askKey : Option UInt32) (args : AmpBox) (mem : Mem) : Except Fault (Called U) :=
  match ampDoWrite write proto packet own with
  | .error e => .error e
  | .ok (ret, own) => .ok ⟨ret, askKey, proto, some args, mem, own⟩

/-- A handler that is installed is given the packet. -/
theorem Called.written_installed {mem : Mem} {packet : List UInt8} {askKey : Option UInt32}
    {wfunc warg : Nat} (installed : proto.write = .installed wfunc warg) :
    Called.written write proto packet own askKey args mem =
      .ok ⟨(write wfunc warg packet own).1, askKey, proto, some args, mem,
        (write wfunc warg packet own).2⟩ := by
  rw [Called.written, ampDoWrite, installed]

/-- A call hands its packet to the write handler with its callback in the table, and passes on
what the handler returns. -/
theorem ReachesWrite.ampCall_eq {mem : Mem} (reaches : ReachesWrite proto mem command args)
    (wf : args.WF) (func arg : Nat) (own : U) :
    ampCall write proto mem command (some args) func arg own =
      Called.written write (proto.called func arg)
        (serializedBytes (args.asking command (proto.lastAskKey + 1))) own
        (some (proto.lastAskKey + 1)) (args.asking command (proto.lastAskKey + 1))
        (mem.drop ((callSites proto args.toMap).length + 1)) := by
  obtain ⟨short, served, fits⟩ := reaches
  obtain ⟨served, packet⟩ := Mem.serves_append.1 served
  obtain ⟨-, -, wf', -⟩ := wf.asking (proto.lastAskKey + 1) short
  have nonempty := wf.asking_numKeys (proto.lastAskKey + 1) short
  rw [ampCall_served write proto func arg own wf short served, callWrite,
    wf'.serialize_eq _ nonempty fits, if_pos packet.1]
  simp only [Mem.drop_drop]
  rfl

/-- What a call with a key that is not outstanding does to the table: it registers its callback
and returns 0, or it leaves the table as it was and returns an error. -/
theorem ampCall_cases (protoWf : proto.WF) (wf : args.WF) {wfunc warg : Nat}
    (installed : proto.write = .installed wfunc warg)
    (writes : ∀ packet own, (write wfunc warg packet own).1 = 0)
    (absent : proto.outstanding.lookup (proto.lastAskKey + 1) = none) {r : Called U}
    (h : ampCall write proto plenty command (some args) func arg own = .ok r) :
    (r.ret = 0 ∧ r.askKey = some (proto.lastAskKey + 1) ∧ r.proto = proto.called func arg) ∨
      (r.ret ≠ 0 ∧ r.proto.WF ∧ r.proto.outstanding = proto.outstanding ∧
        r.proto.write = proto.write) := by
  by_cases reaches : ReachesWrite proto plenty command args
  · have slot : (proto.called func arg).write = .installed wfunc warg := installed
    rw [reaches.ampCall_eq wf, Called.written_installed slot] at h
    obtain rfl := Except.ok.inj h
    exact .inl ⟨writes _ own, rfl, rfl⟩
  · obtain ⟨failed, wf', same, write'⟩ := ampCall_stops protoWf wf absent reaches h
    exact .inr ⟨failed, wf', same, write'⟩

/-- A call whose packet fits puts it on the stream. -/
theorem ampCall_written (func arg : Nat) (own : U)
    (wf : args.WF) (short : command.bytes.length ≤ maxValueLength) {wfunc warg : Nat}
    (installed : proto.write = .installed wfunc warg)
    (fits : (serializedBytes (args.asking command (proto.lastAskKey + 1))).length ≤ intMax) :
    ampCall write proto plenty command (some args) func arg own =
      let packet := serializedBytes (args.asking command (proto.lastAskKey + 1))
      .ok ⟨(write wfunc warg packet own).1, some (proto.lastAskKey + 1), proto.called func arg,
        some (args.asking command (proto.lastAskKey + 1)), plenty,
        (write wfunc warg packet own).2⟩ := by
  have reaches : ReachesWrite proto plenty command args := ⟨short, Mem.serves_plenty _, fits⟩
  have slot : (proto.called func arg).write = .installed wfunc warg := installed
  rw [reaches.ampCall_eq wf, Called.written_installed slot]
  rfl

/-- An answer whose packet fits puts it on the stream. -/
theorem ampRespond_written (own : U) (wf : args.WF) {request : AmpRequest}
    {askKey : AmpChunk} (asked : request.askKey = some askKey)
    (storable : Storable Key.answer askKey.value) {wfunc warg : Nat}
    (installed : proto.write = .installed wfunc warg)
    (fits : (serializedBytes (args.add Key.answer askKey.value)).length ≤ intMax) :
    ampRespond write proto plenty request (some args) own =
      let packet := serializedBytes (args.add Key.answer askKey.value)
      .ok ⟨(write wfunc warg packet own).1, some (args.add Key.answer askKey.value), plenty,
        (write wfunc warg packet own).2⟩ := by
  obtain ⟨put, wf', -⟩ := wf.add storable
  have nonempty := wf.add_numKeys storable
  have size : askKey.size = askKey.value.length := rfl
  simp only [ampRespond, asked, size, put, ne_eq, not_true_eq_false, ↓reduceIte, serializeAndSend,
    wf'.serialize nonempty fits, ampDoWrite, installed]

end LibAmp
