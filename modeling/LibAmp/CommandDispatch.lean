import LibAmp.DispatchSpec

/-!
# Responders

Over any sequence of registrations, removals and inbound requests, the table of responders holds
for each name the responder last added under it and not removed since. A request is dispatched
by the part of its `_command` value before the first NUL, so it finds the responder of the whole
value exactly if none is registered for that part of a longer value.
-/

namespace LibAmp

variable {U : Type} {write : WriteHandler U}

/-! ## Runs -/

/-- What happens to the responders of a proto. -/
inductive ResponderEvent where
  | add (command : CString) (func arg : Nat)
  | remove (command : CString)
  | inbound (box : AmpBox)

/-- One event, with memory to spare. -/
def ResponderEvent.step (write : WriteHandler U) (proto : Dispatcher) (own : U) :
    ResponderEvent → Except Fault (Dispatcher × U)
  | .add command func arg =>
    match ampAddResponder proto plenty command func arg with
    | .error e => .error e
    | .ok (proto, _) => .ok (proto, own)
  | .remove command => .ok (ampRemoveResponder proto command, own)
  | .inbound box =>
    match ampProcessFullPacket write proto (some box) plenty box own with
    | .error e => .error e
    | .ok p => .ok (p.proto, p.own)

def ResponderEvent.run (write : WriteHandler U) (proto : Dispatcher) (own : U) :
    List ResponderEvent → Except Fault (Dispatcher × U)
  | [] => .ok (proto, own)
  | event :: events =>
    match event.step write proto own with
    | .error e => .error e
    | .ok (proto, own) => run write proto own events

/-- The boxes that arrive are well formed and have a `_command`. -/
def Requests (events : List ResponderEvent) : Prop :=
  ∀ box, .inbound box ∈ events → box.WF ∧ Key.command ∈ box.toMap

/-! ## What should be dispatched -/

/-- The effect of one event on the responder added last under a name. -/
def ResponderEvent.update (name : List UInt8) (last : Option Responder) :
    ResponderEvent → Option Responder
  | .add command func arg => if command.bytes = name then some ⟨command, func, arg⟩ else last
  | .remove command => if command.bytes = name then none else last
  | .inbound _ => last

/-- The responder most recently added under exactly this name, and not removed since. -/
def lastAdded (name : List UInt8) (past : List ResponderEvent) : Option Responder :=
  past.foldl (ResponderEvent.update name) none

/-- The user code that is run. -/
def Progressed.invocation (p : Progressed U) : Option Invocation :=
  match p.flow with
  | .ret _ => none
  | .invoke invocation => some invocation

/-- The box is given to the responder of its whole `_command` value, and to no other. -/
def DispatchedExactly (past : List ResponderEvent) (box : AmpBox) (value : List UInt8) :
    Except Fault (Progressed U) → Prop
  | .ok p => p.invocation = (lastAdded value past).map fun responder =>
      .responder responder ⟨⟨value⟩, (box.toMap.lookup Key.ask).map AmpChunk.mk, box⟩
  | .error _ => lastAdded value past = none

/-- The box is dispatched after the given events, whenever these do not fault. -/
def ExactAfter (write : WriteHandler U) (proto : Dispatcher) (own : U)
    (past : List ResponderEvent) (box : AmpBox) (value : List UInt8) : Prop :=
  ∀ proto' own', ResponderEvent.run write proto own past = .ok (proto', own') →
    DispatchedExactly past box value
      (ampProcessFullPacket write proto' (some box) plenty box own')

/-! ## The table holds what was added last -/

/-- The table of a proto after some events. -/
structure Registered (past : List ResponderEvent) (proto : Dispatcher) : Prop where
  wf : proto.responders.WF
  lookup : ∀ name : CString, proto.registered.lookup name = lastAdded name.bytes past

theorem lastAdded_concat (name : List UInt8) (past : List ResponderEvent)
    (event : ResponderEvent) :
    lastAdded name (past ++ [event]) = event.update name (lastAdded name past) := by
  rw [lastAdded, List.foldl_concat, lastAdded]

/-- Nothing is registered under a name that is not a C string. -/
theorem lastAdded_nul {name : List UInt8} (nul : 0 ∈ name) (past : List ResponderEvent) :
    lastAdded name past = none := by
  have other (command : CString) : command.bytes ≠ name := fun h => command.nulFree (h ▸ nul)
  induction past using List.reverseRecOn with
  | nil => rfl
  | append_singleton past event ih =>
    rw [lastAdded_concat, ih]
    cases event <;> simp [ResponderEvent.update, other]

variable {past events : List ResponderEvent} {proto proto' : Dispatcher} {own own' : U}

/-- A new proto has no responders. -/
theorem Registered.start {mem mem' : Mem} {keyData : Buffer (256 + 1)}
    {valData : Buffer (256 * 256)} {new : AmpProto}
    (hnew : ampNewProto mem keyData valData = .ok (some new, mem'))
    (responders : proto.responders = new.responders) : Registered [] proto := by
  obtain ⟨-, wf, -, empty, -, -⟩ := ampNewProto_ok hnew
  refine ⟨responders ▸ wf.responders, ?_⟩
  intro name
  rw [Dispatcher.registered, responders]
  rw [Dispatcher.registered] at empty
  rw [empty, Finmap.lookup_empty]
  rfl

theorem Registered.add (reg : Registered past proto) {command : CString} {func arg : Nat}
    {mem : Mem} (h : ampAddResponder proto plenty command func arg = .ok (proto', mem)) :
    Registered (past ++ [.add command func arg]) proto' := by
  simp only [ampAddResponder, ampNewResponder, malloc_plenty, ampPutResponder] at h
  obtain ⟨rfl, -⟩ := Prod.mk.inj (Except.ok.inj h)
  obtain ⟨wf, ⟨-, map⟩ | ⟨-, full, -⟩⟩ :=
    reg.wf.put plenty command (⟨command, func, arg⟩ : Responder)
  · refine ⟨wf, ?_⟩
    intro name
    rw [lastAdded_concat, ← reg.lookup name, Dispatcher.registered, map]
    by_cases same : name = command
    · subst same
      simp [ResponderEvent.update]
    · rw [Finmap.lookup_insert_of_ne _ same, ResponderEvent.update,
        if_neg fun h => same (CString.ext h).symm, Dispatcher.registered]
  · cases full

theorem Registered.remove (reg : Registered past proto) (command : CString) :
    Registered (past ++ [.remove command]) (ampRemoveResponder proto command) := by
  obtain ⟨-, wf, map⟩ := reg.wf.remove command
  refine ⟨wf, ?_⟩
  intro name
  rw [lastAdded_concat, ← reg.lookup name, Dispatcher.registered, ampRemoveResponder,
    ampRemoveResponderBinding, map]
  by_cases same : name = command
  · subst same
    simp [ResponderEvent.update, Finmap.lookup_erase]
  · rw [Finmap.lookup_erase_ne same, ResponderEvent.update,
      if_neg fun h => same (CString.ext h).symm, Dispatcher.registered]

/-- A box with `_command` leaves the dispatcher as it is. -/
theorem process_command_proto {box : AmpBox} (wf : box.WF) (command : Key.command ∈ box.toMap)
    {held : Option AmpBox} {p : Progressed U}
    (h : ampProcessFullPacket write proto held plenty box own = .ok p) : p.proto = proto := by
  obtain ⟨value, hvalue⟩ := Finmap.mem_iff.1 command
  rw [process_command write proto wf held own hvalue] at h
  grind

/-- Every event keeps the table as it should be. -/
theorem Registered.step (reg : Registered past proto) {event : ResponderEvent}
    (request : Requests [event]) (h : event.step write proto own = .ok (proto', own')) :
    Registered (past ++ [event]) proto' := by
  cases event with
  | add command func arg =>
    simp only [ResponderEvent.step] at h
    split at h
    · cases h
    next proto₁ mem hadd =>
    obtain ⟨rfl, -⟩ := Prod.mk.inj (Except.ok.inj h)
    exact reg.add hadd
  | remove command =>
    obtain ⟨rfl, -⟩ := Prod.mk.inj (Except.ok.inj h)
    exact reg.remove command
  | inbound box =>
    obtain ⟨wf, command⟩ := request box (by simp)
    simp only [ResponderEvent.step] at h
    split at h
    · cases h
    next p hp =>
    obtain ⟨rfl, -⟩ := Prod.mk.inj (Except.ok.inj h)
    rw [process_command_proto wf command hp]
    exact ⟨reg.wf, fun name => by rw [reg.lookup, lastAdded_concat]; rfl⟩

theorem Registered.run (reg : Registered past proto) (requests : Requests events)
    (h : ResponderEvent.run write proto own events = .ok (proto', own')) :
    Registered (past ++ events) proto' := by
  induction events generalizing past proto own with
  | nil =>
    obtain ⟨rfl, -⟩ := Prod.mk.inj (Except.ok.inj h)
    simpa using reg
  | cons event events ih =>
    simp only [ResponderEvent.run] at h
    split at h
    · cases h
    next proto₁ own₁ hstep =>
    have next := reg.step (fun box hbox => requests box (by simp_all)) hstep
    simpa using ih next (fun box hbox => requests box (by simp [hbox])) h

/-! ## How many responders -/

/-- The command an event registers a responder for. -/
def ResponderEvent.added : ResponderEvent → Option CString
  | .add command _ _ => some command
  | .remove _ => none
  | .inbound _ => none

/-- Only a command that was added has a responder. -/
theorem mem_added_of_lastAdded {name : CString} {responder : Responder}
    (h : lastAdded name.bytes past = some responder) :
    name ∈ past.filterMap ResponderEvent.added := by
  induction past using List.reverseRecOn with
  | nil => cases h
  | append_singleton past event ih =>
    rw [lastAdded_concat] at h
    rw [List.filterMap_append, List.mem_append]
    cases event with
    | add command func arg =>
      by_cases same : command.bytes = name.bytes
      · exact .inr (by simp [ResponderEvent.added, CString.ext same])
      · rw [ResponderEvent.update, if_neg same] at h
        exact .inl (ih h)
    | remove command =>
      simp only [ResponderEvent.update] at h
      split at h
      · cases h
      · exact .inl (ih h)
    | inbound box => exact .inl (ih h)

/-- After fewer than 2³¹ events an `int` holds the number of responders. -/
theorem Registered.length_toInt32 (reg : Registered past proto) (few : past.length < 2 ^ 31) :
    (Int32.ofInt (tableLength proto.responders)).toInt = tableLength proto.responders := by
  have added : proto.registered.keys ⊆ (past.filterMap ResponderEvent.added).toFinset := by
    intro name present
    obtain ⟨responder, lookup⟩ := Finmap.mem_iff.1 (Finmap.mem_keys.1 present)
    exact List.mem_toFinset.2 (mem_added_of_lastAdded (reg.lookup name ▸ lookup))
  have card : proto.registered.keys.card ≤ past.length :=
    (Finset.card_le_card added).trans
      ((List.toFinset_card_le _).trans (List.length_filterMap_le _ _))
  have length : tableLength proto.responders = proto.registered.keys.card := reg.wf.length
  rw [length]
  exact Int32.toInt_ofInt_of_le (by omega) (by omega)

/-! ## Exact dispatch -/

/-- A box is dispatched exactly if the responder found is the one that should be. -/
theorem dispatchedExactly_iff_found {box : AmpBox} (wf : box.WF) {value : List UInt8}
    (hvalue : box.toMap.lookup Key.command = some value) (held : Option AmpBox) :
    DispatchedExactly past box value (ampProcessFullPacket write proto held plenty box own) ↔
      ampGetResponder proto.responders (.ofBytes value) = lastAdded value past := by
  rw [process_command write proto wf held own hvalue]
  cases ampGetResponder proto.responders (.ofBytes value) with
  | some found =>
    rcases h : lastAdded value past with _ | expected
    · simp [DispatchedExactly, Progressed.invocation, h]
    · simp [DispatchedExactly, Progressed.invocation, h]
  | none =>
    have none_iff : none = lastAdded value past ↔ lastAdded value past = none := eq_comm
    rw [none_iff]
    split
    · next h => cases h
    split
    · simp [DispatchedExactly, Progressed.invocation]
    · split
      · exact .rfl
      · simp [DispatchedExactly, Progressed.invocation]

variable (write own) in
/-- In any state the box is dispatched exactly if no responder has the name of its value up to a
NUL inside it. -/
theorem Registered.dispatchedExactly_iff (reg : Registered past proto) {box : AmpBox}
    (wf : box.WF) {value : List UInt8} (hvalue : box.toMap.lookup Key.command = some value)
    (held : Option AmpBox) :
    DispatchedExactly past box value
        (ampProcessFullPacket write proto held plenty box own) ↔
      (0 ∈ value → lastAdded (value.takeWhile (· ≠ 0)) past = none) := by
  have found : ampGetResponder proto.responders (.ofBytes value) =
      lastAdded (value.takeWhile (· ≠ 0)) past :=
    (reg.wf.get _).trans (reg.lookup _)
  rw [dispatchedExactly_iff_found wf hvalue held, found]
  by_cases nul : 0 ∈ value
  · simp only [lastAdded_nul nul, nul, true_implies]
  · have whole : value.takeWhile (· ≠ 0) = value := CString.ofBytes_of_nulFree nul
    simp only [whole, nul, false_implies]

/-- In a run from a new proto, all requests are dispatched exactly if and only if no request is
reached while a responder has the name its `_command` value would have as a C string, without
being that value. -/
theorem command_dispatch_iff (write : WriteHandler U) {mem mem' : Mem}
    {keyData : Buffer (256 + 1)} {valData : Buffer (256 * 256)} {new : AmpProto}
    (hnew : ampNewProto mem keyData valData = .ok (some new, mem')) {proto : Dispatcher}
    (responders : proto.responders = new.responders) (own : U) {events : List ResponderEvent}
    (requests : Requests events) :
    (∀ past box later value, events = past ++ .inbound box :: later →
        box.toMap.lookup Key.command = some value →
        ExactAfter write proto own past box value) ↔
      ∀ past box later value, events = past ++ .inbound box :: later →
        box.toMap.lookup Key.command = some value →
        (∃ reached, ResponderEvent.run write proto own past = .ok reached) →
        0 ∈ value → lastAdded (value.takeWhile (· ≠ 0)) past = none := by
  have start : Registered [] proto := .start hnew responders
  have each {past : List ResponderEvent} {box : AmpBox} {later : List ResponderEvent}
      {value : List UInt8} (split : events = past ++ .inbound box :: later)
      (hvalue : box.toMap.lookup Key.command = some value) {proto' : Dispatcher} {own' : U}
      (run : ResponderEvent.run write proto own past = .ok (proto', own')) :=
    (start.run (fun b hb => requests b (by simp [split, hb])) run).dispatchedExactly_iff write own'
      (requests box (by simp [split])).1 hvalue (some box)
  constructor
  · rintro exact past box later value split hvalue ⟨⟨proto', own'⟩, run⟩
    exact (each split hvalue run).1 (exact past box later value split hvalue proto' own' run)
  · intro whole past box later value split hvalue proto' own' run
    exact (each split hvalue run).2 (whole past box later value split hvalue ⟨_, run⟩)

def sumCommand : CString := ⟨ascii "sum", by decide⟩

/-- A request for the one registered command. -/
theorem command_dispatch_iff_sum :
    ∃ new, ampNewProto plenty (.zeros _) (.zeros _) = .ok (some new, plenty) ∧
      ExactAfter (fun _ _ _ own => (0, own)) new.toDispatcher () [.add sumCommand 1 2]
        (.single Key.command (ascii "sum")) (ascii "sum") := by
  obtain ⟨new, hnew⟩ := ampNewProto_plenty (.zeros _) (.zeros _)
  have storable : Storable Key.command (ascii "sum") := by decide
  obtain ⟨wf, map⟩ := AmpBox.wf_single storable
  have lookup : (AmpBox.single Key.command (ascii "sum")).toMap.lookup Key.command =
      some (ascii "sum") := by
    rw [map, Finmap.lookup_insert]
  have only {box : AmpBox} (h : ResponderEvent.inbound box ∈
      [.add sumCommand 1 2, .inbound (.single Key.command (ascii "sum"))]) :
      box = .single Key.command (ascii "sum") := by
    simpa using h
  refine ⟨new, hnew, (command_dispatch_iff _ hnew rfl () fun box h => ?_).2
    (fun past box later value split hvalue _ nul => ?_) _ _ [] _ rfl lookup⟩
  · exact only h ▸ ⟨wf, Finmap.mem_iff.2 ⟨_, lookup⟩⟩
  · have same : box = .single Key.command (ascii "sum") := only <|
      (congrArg (ResponderEvent.inbound box ∈ ·) split).mpr (by simp)
    rw [same, lookup] at hvalue
    exact absurd (Option.some.inj hvalue ▸ nul) (by decide)

/-- A request for `sum` followed by a NUL and another byte runs the responder of `sum`. -/
theorem command_dispatch_nul :
    ∃ new proto p, ampNewProto plenty (.zeros _) (.zeros _) = .ok (some new, plenty) ∧
      ResponderEvent.run (fun _ _ _ own => (0, own)) new.toDispatcher ()
        [.add sumCommand 1 2] = .ok (proto, ()) ∧
      ampProcessFullPacket (fun _ _ _ own => (0, own)) proto
        (some (.single Key.command [115, 117, 109, 0, 120])) plenty
        (.single Key.command [115, 117, 109, 0, 120]) () = .ok p ∧
      (∃ request, p.invocation = some (.responder ⟨sumCommand, 1, 2⟩ request)) ∧
      ¬ ExactAfter (fun _ _ _ own => (0, own)) new.toDispatcher () [.add sumCommand 1 2]
        (.single Key.command [115, 117, 109, 0, 120]) [115, 117, 109, 0, 120] := by
  refine ⟨_, _, _, rfl, rfl, rfl, ⟨_, rfl⟩, ?_⟩
  intro exact
  have dispatched := exact _ _ rfl
  cases dispatched

end LibAmp
