import LibAmp.Lib.Ledger
import LibAmp.Session

/-!
# The life of a callback

In every session a callback that was registered is invoked by the first later event that
addresses its ask key, with the result that event stands for, and by nothing else
(`callback_lifecycle`). The table of outstanding requests tracks, in the sense of
`LibAmp.Lib.Ledger`, the registrations that no event has addressed yet.
-/

namespace LibAmp

open Ledger (Open Tracks)

variable {U : Type} {write : WriteHandler U} {s s' : Session U} {event : SessionEvent}
  {shown : Shown}

/-! ## Steps -/

variable (write s) in
/-- An event that addresses a key comes to completing the call of that key. -/
theorem step_completes (wf : event.WF) {key : UInt32} {result : AmpResult}
    (h : event.addresses = some (key, result)) :
    ∃ held, event.step write s = .ok (s.progress (completeCall s.proto.toDispatcher held plenty
      s.own key.toInt32 result event.unknown)) := by
  cases event with
  | cancel askKey =>
    obtain ⟨rfl, rfl⟩ := Prod.mk.inj (Option.some.inj h)
    exact ⟨s.proto.box, rfl⟩
  | inbound box =>
    exact ⟨none, by rw [SessionEvent.step, process_addressed wf h]; rfl⟩
  | call | reset | returned => cases h

/-- Addressing a key that is not outstanding does nothing. -/
theorem step_absent (wf : event.WF) {key : UInt32} {result : AmpResult}
    (h : event.addresses = some (key, result))
    (absent : tableGet s.proto.outstandingRequests key = none)
    (step : event.step write s = .ok (shown, s')) :
    shown = ⟨some event.unknown, none, none⟩ ∧ s'.proto.toDispatcher = s.proto.toDispatcher := by
  obtain ⟨held, run⟩ := step_completes write s wf h
  rw [completeCall_plenty, toUInt32_toInt32, absent, Dispatcher.popped_absent absent] at run
  obtain ⟨rfl, rfl⟩ := Prod.mk.inj (Except.ok.inj (step.symm.trans run))
  exact ⟨rfl, rfl⟩

/-- Addressing an outstanding key invokes its callback and takes it out of the table. -/
theorem step_present (wf : event.WF) {key : UInt32} {result : AmpResult} {cb : Callback}
    (h : event.addresses = some (key, result))
    (present : tableGet s.proto.outstandingRequests key = some cb)
    (step : event.step write s = .ok (shown, s')) :
    shown = ⟨none, none, some (.callback cb result)⟩ ∧
      s'.proto.toDispatcher = s.proto.toDispatcher.popped key := by
  obtain ⟨held, run⟩ := step_completes write s wf h
  rw [completeCall_plenty, toUInt32_toInt32, present] at run
  obtain ⟨rfl, rfl⟩ := Prod.mk.inj (Except.ok.inj (step.symm.trans run))
  exact ⟨rfl, rfl⟩

/-- An event that is no call and addresses no key invokes no callback and leaves the dispatcher
alone. -/
theorem step_other (wf : event.WF) (h : event.addresses = none)
    (noCall : ∀ command args func arg, event ≠ .call command args func arg)
    (step : event.step write s = .ok (shown, s')) :
    (∀ cb result, shown.invoked ≠ some (.callback cb result)) ∧
      s'.proto.toDispatcher = s.proto.toDispatcher := by
  cases event with
  | call command args func arg => exact absurd rfl (noCall command args func arg)
  | cancel askKey => cases h
  | reset =>
    obtain ⟨rfl, rfl⟩ := Prod.mk.inj (Except.ok.inj step)
    exact ⟨nofun, rfl⟩
  | inbound box =>
    simp only [SessionEvent.step] at step
    split at step
    · cases step
    next p hp =>
    obtain ⟨same, noCallback⟩ := process_unaddressed wf h hp
    rcases hflow : p.flow with code | invocation <;> simp only [Session.progress, hflow] at step <;>
      obtain ⟨rfl, rfl⟩ := Prod.mk.inj (Except.ok.inj step)
    · exact ⟨nofun, same⟩
    · refine ⟨fun cb result hinvoked => noCallback cb result ?_, same⟩
      rw [hflow, Option.some.inj hinvoked]
  | returned =>
    simp only [SessionEvent.step] at step
    split at step <;> obtain ⟨rfl, rfl⟩ := Prod.mk.inj (Except.ok.inj step) <;>
      exact ⟨nofun, rfl⟩

/-! ## The invariant -/

def registrations (entries : List Entry) : Nat := entries.countP (·.registered.isSome)

def invocations (entries : List Entry) : Nat := entries.countP (·.callback.isSome)

/-- After some events the table holds the callbacks registered and not addressed since. -/
structure Dispatcher.Consistent (proto : Dispatcher) (wfunc warg : Nat) (history : List Entry) :
    Prop where
  wf : proto.WF
  installed : proto.write = .installed wfunc warg
  tracks : Tracks Entry.registered Entry.addressed history proto.outstanding
  length : tableLength proto.outstandingRequests + invocations history = registrations history

/-- What a call shows. -/
structure Entry.Calls (e : Entry) : Prop where
  /-- A call whose command and packet are not too long returns 0, -/
  returns : ∀ {command args func arg}, e.event = .call command args func arg →
    command.bytes.length ≤ maxValueLength →
    (serializedBytes (args.asking command (e.before.lastAskKey + 1))).length ≤ intMax →
    e.ret = some 0
  /-- and one that returned 0 has stored its ask key and put its callback into the table. -/
  registers : ∀ {key cb}, e.registered = some (key, cb) →
    e.askKey = some key ∧ tableGet e.after.outstandingRequests key = some cb

/-- What an entry shows, given the events before it. -/
structure Entry.Lawful (history : List Entry) (e : Entry) : Prop where
  calls : e.Calls
  invoked : ∀ {i key cb result}, e.event.addresses = some (key, result) →
    Open Entry.registered Entry.addressed history i key cb → e.callback = some (cb, result)
  only : ∀ {cb result}, e.callback = some (cb, result) →
    ∃ key i, e.event.addresses = some (key, result) ∧
      Open Entry.registered Entry.addressed history i key cb
  unknown : ∀ {key result}, e.event.addresses = some (key, result) →
    (∀ i cb, ¬ Open Entry.registered Entry.addressed history i key cb) →
    e.invoked = none ∧ e.ret = some e.event.unknown ∧
      e.after.outstandingRequests = e.before.outstandingRequests
  unique : ∀ {i i' key cb cb'}, Open Entry.registered Entry.addressed history i key cb →
    Open Entry.registered Entry.addressed history i' key cb' → i = i'
  length : (tableLength e.after.outstandingRequests : Int) =
    registrations (history ++ [e]) - invocations (history ++ [e])

/-! ## The invariant is kept -/

variable {history : List Entry} {e : Entry} {wfunc warg : Nat} {proto : Dispatcher}

@[simp] theorem registrations_concat :
    registrations (history ++ [e]) = registrations history + e.registered.isSome.toNat := by
  cases h : e.registered <;> simp [registrations, h]

@[simp] theorem invocations_concat :
    invocations (history ++ [e]) = invocations history + e.callback.isSome.toNat := by
  cases h : e.callback <;> simp [invocations, h]

theorem Entry.noCall_of_addressed {result : UInt32 × AmpResult}
    (h : e.event.addresses = some result) (command : CString) (args : AmpBox) (func arg : Nat) :
    e.event ≠ .call command args func arg := by
  intro call
  rw [call] at h
  cases h

theorem Entry.registered_of_noCall
    (h : ∀ command args func arg, e.event ≠ .call command args func arg) :
    e.registered = none := by
  unfold registered
  grind

/-- An event that is no call. -/
theorem Entry.Calls.of_noCall
    (h : ∀ command args func arg, e.event ≠ .call command args func arg) : e.Calls := by
  refine ⟨fun call => absurd call (h _ _ _ _), fun registered => ?_⟩
  rw [Entry.registered_of_noCall h] at registered
  cases registered

theorem Entry.callback_eq_none (h : ∀ cb result, e.invoked ≠ some (.callback cb result)) :
    e.callback = none := by
  unfold callback
  grind

namespace Dispatcher.Consistent

variable {after : Dispatcher} {key : UInt32} {cb : Callback}

/-- An entry that registers nothing and addresses no outstanding key. -/
theorem skip (c : proto.Consistent wfunc warg history) (registered : e.registered = none)
    (callback : e.callback = none)
    (addressed : ∀ key, e.addressed = some key → proto.outstanding.lookup key = none)
    (wf : after.WF) (write : after.write = proto.write)
    (map : after.outstanding = proto.outstanding) :
    after.Consistent wfunc warg (history ++ [e]) := by
  refine ⟨wf, write.trans c.installed, map ▸ c.tracks.skip registered addressed, ?_⟩
  have before := c.length
  rw [c.wf.length] at before
  rw [wf.length, map]
  simpa [registered, callback] using before

/-- An entry that registers a callback under a key that is not outstanding. -/
theorem insert (c : proto.Consistent wfunc warg history) (cb : Callback)
    (registered : e.registered = some (key, cb)) (callback : e.callback = none)
    (addressed : e.addressed = none) (absent : proto.outstanding.lookup key = none) (wf : after.WF)
    (write : after.write = proto.write)
    (map : after.outstanding = proto.outstanding.insert key cb) :
    after.Consistent wfunc warg (history ++ [e]) := by
  refine ⟨wf, write.trans c.installed, map ▸ c.tracks.insert registered addressed absent, ?_⟩
  have before := c.length
  rw [c.wf.length] at before
  rw [wf.length, map, Ledger.card_insert absent]
  simp [registered, callback]
  omega

/-- An entry that invokes the callback under an outstanding key. -/
theorem erase (c : proto.Consistent wfunc warg history) (registered : e.registered = none)
    (callback : e.callback.isSome) (addressed : e.addressed = some key)
    (present : proto.outstanding.lookup key = some cb) (wf : after.WF)
    (write : after.write = proto.write)
    (map : after.outstanding = proto.outstanding.erase key) :
    after.Consistent wfunc warg (history ++ [e]) := by
  refine ⟨wf, write.trans c.installed, map ▸ c.tracks.erase registered addressed, ?_⟩
  have before := c.length
  rw [c.wf.length] at before
  rw [wf.length, map]
  have fewer := Ledger.card_erase present
  simp only [registrations_concat, invocations_concat, registered, callback, Option.isSome_none,
    Bool.toNat_false, Bool.toNat_true]
  omega

/-- After fewer than 2³¹ events an `int` holds the number of callbacks. -/
theorem length_toInt32 (c : proto.Consistent wfunc warg history) (few : history.length < 2 ^ 31) :
    (Int32.ofInt (tableLength proto.outstandingRequests)).toInt =
      tableLength proto.outstandingRequests := by
  have length := c.length
  have registered : registrations history ≤ history.length := List.countP_le_length
  have nonneg := c.wf.length
  exact Int32.toInt_ofInt_of_le (by omega) (by omega)

/-- What holds of an entry follows from the state before it and the kind of the entry. -/
theorem lawful (c : proto.Consistent wfunc warg history)
    (next : after.Consistent wfunc warg (history ++ [e])) (hafter : e.after = after)
    (hbefore : e.before = proto) (calls : e.Calls)
    (absent : ∀ {key result}, e.event.addresses = some (key, result) →
      proto.outstanding.lookup key = none → e.invoked = none ∧ e.ret = some e.event.unknown ∧
        after.outstandingRequests = proto.outstandingRequests)
    (present : ∀ {key result cb}, e.event.addresses = some (key, result) →
      proto.outstanding.lookup key = some cb → e.callback = some (cb, result))
    (other : e.event.addresses = none → e.callback = none) : e.Lawful history := by
  subst hafter hbefore
  refine ⟨calls, ?_, ?_, ?_, c.tracks.unique, ?_⟩
  · intro i key cb result h isOpen
    exact present h ((c.tracks.lookup _ _).2 ⟨_, isOpen⟩)
  · intro cb result h
    rcases haddr : e.event.addresses with _ | ⟨key, result'⟩
    · rw [other haddr] at h
      cases h
    rcases hfound : e.before.outstanding.lookup key with _ | cb'
    · obtain ⟨noUserCode, -⟩ := absent haddr hfound
      rw [Entry.callback, noUserCode] at h
      cases h
    · obtain ⟨rfl, rfl⟩ := Prod.mk.inj (Option.some.inj ((present haddr hfound).symm.trans h))
      obtain ⟨i, isOpen⟩ := (c.tracks.lookup key cb').1 hfound
      exact ⟨key, i, rfl, isOpen⟩
  · intro key result h none
    exact absent h (c.tracks.lookup_eq_none.2 none)
  · have length := next.length
    omega

end Dispatcher.Consistent

section Step

variable (c : s.proto.toDispatcher.Consistent wfunc warg history)
include c

/-- A call registers its callback under a new key, or leaves the table as it was. -/
theorem Dispatcher.Consistent.step_call {command : CString} {args : AmpBox} {func arg : Nat}
    (writes : ∀ packet own, (write wfunc warg packet own).1 = 0) (wf : args.WF)
    (step : SessionEvent.step write s (.call command args func arg) = .ok (shown, s'))
    (noWrap : (SessionEvent.entry (.call command args func arg) s shown s').wraps = false) :
    (SessionEvent.entry (.call command args func arg) s shown s').Lawful history ∧
      s'.proto.toDispatcher.Consistent wfunc warg
        (history ++ [SessionEvent.entry (.call command args func arg) s shown s']) := by
  have absent : s.proto.outstanding.lookup (s.proto.lastAskKey + 1) = none := by
    rw [← c.wf.get]
    simpa [Entry.wraps, SessionEvent.entry] using noWrap
  simp only [SessionEvent.step] at step
  split at step
  · cases step
  next r hcall =>
  obtain ⟨rfl, rfl⟩ := Prod.mk.inj (Except.ok.inj step)
  obtain ⟨e, he⟩ : ∃ e, e = SessionEvent.entry (.call command args func arg) s
      ⟨some r.ret, r.askKey, none⟩
      ⟨{ s.proto with toDispatcher := r.proto }, s.running, r.own⟩ := ⟨_, rfl⟩
  have returns : command.bytes.length ≤ maxValueLength →
      (serializedBytes (args.asking command (s.proto.lastAskKey + 1))).length ≤ intMax →
      r.ret = 0 := by
    intro short fits
    rw [ampCall_written func arg s.own wf short c.installed fits] at hcall
    obtain rfl := Except.ok.inj hcall
    exact writes _ _
  rw [← he]
  suffices next : r.proto.Consistent wfunc warg (history ++ [e]) ∧ ∀ {key cb},
      e.registered = some (key, cb) → e.askKey = some key ∧
        tableGet r.proto.outstandingRequests key = some cb by
    subst he
    refine ⟨c.lawful next.1 rfl rfl ⟨?_, next.2⟩ (fun h => by cases h) (fun h => by cases h)
      fun _ => rfl, next.1⟩
    rintro _ _ _ _ ⟨⟩ short fits
    exact congrArg some (returns short fits)
  rcases ampCall_cases c.wf wf c.installed writes absent hcall with
    ⟨ret, askKey, called⟩ | ⟨ret, wf', map, sameWrite⟩
  · obtain ⟨wf', map⟩ := c.wf.called func arg
    have registered : e.registered = some (s.proto.lastAskKey + 1,
        ⟨(s.proto.lastAskKey + 1).toInt32, func, arg⟩) := by
      simp only [he, SessionEvent.entry, Entry.registered, ret]
    refine ⟨c.insert ⟨(s.proto.lastAskKey + 1).toInt32, func, arg⟩ registered (he ▸ rfl) (he ▸ rfl)
      absent (called ▸ wf') (by rw [called]; rfl) (by rw [called, map]), ?_⟩
    intro key cb same
    obtain ⟨rfl, rfl⟩ := Prod.mk.inj (Option.some.inj (registered.symm.trans same))
    refine ⟨he ▸ askKey, ?_⟩
    rw [called, wf'.get, map, Finmap.lookup_insert]
  · have none : e.registered = none := by
      unfold Entry.registered
      simp_all [SessionEvent.entry]
    refine ⟨c.skip none (he ▸ rfl) (he ▸ nofun) wf' sameWrite map, fun same => ?_⟩
    rw [none] at same
    cases same

theorem Dispatcher.Consistent.step_other (wf : event.WF) (haddr : event.addresses = none)
    (noCall : ∀ command args func arg, event ≠ .call command args func arg)
    (step : event.step write s = .ok (shown, s')) :
    (event.entry s shown s').Lawful history ∧
      s'.proto.toDispatcher.Consistent wfunc warg (history ++ [event.entry s shown s']) := by
  obtain ⟨noCallback, same⟩ := LibAmp.step_other wf haddr noCall step
  have callback := Entry.callback_eq_none (e := event.entry s shown s') noCallback
  have registered : (event.entry s shown s').registered = none :=
    Entry.registered_of_noCall noCall
  have next := c.skip registered callback (by simp [Entry.addressed, SessionEvent.entry, haddr])
    (same ▸ c.wf) (by rw [same]) (by rw [same])
  exact ⟨c.lawful next rfl rfl (.of_noCall noCall) (fun h => by cases haddr.symm.trans h)
    (fun h => by cases haddr.symm.trans h) fun _ => callback, next⟩

theorem Dispatcher.Consistent.step_addresses (wf : event.WF) {key : UInt32} {result : AmpResult}
    (haddr : event.addresses = some (key, result))
    (step : event.step write s = .ok (shown, s')) :
    (event.entry s shown s').Lawful history ∧
      s'.proto.toDispatcher.Consistent wfunc warg (history ++ [event.entry s shown s']) := by
  have noCall := Entry.noCall_of_addressed (e := event.entry s shown s') haddr
  have registered := Entry.registered_of_noCall noCall
  have addressed : (event.entry s shown s').addressed = some key := by
    simp [Entry.addressed, SessionEvent.entry, haddr]
  have same {key' : UInt32} {result' : AmpResult} (h : event.addresses = some (key', result')) :
      key = key' ∧ result = result' := Prod.mk.inj (Option.some.inj (haddr.symm.trans h))
  rcases hfound : s.proto.outstanding.lookup key with _ | cb
  · obtain ⟨rfl, unchanged⟩ := step_absent wf haddr ((c.wf.get key).trans hfound) step
    have next := c.skip registered rfl
      (fun k hk => Option.some.inj (addressed.symm.trans hk) ▸ hfound)
      (unchanged ▸ c.wf) (by rw [unchanged]) (by rw [unchanged])
    refine ⟨c.lawful next rfl rfl (.of_noCall noCall) (fun _ _ => ⟨rfl, rfl, by rw [unchanged]⟩)
      (fun h present => ?_) fun _ => rfl, next⟩
    obtain ⟨rfl, -⟩ := same h
    rw [hfound] at present
    cases present
  · obtain ⟨rfl, popped⟩ := step_present wf haddr ((c.wf.get key).trans hfound) step
    obtain ⟨wf', map⟩ := c.wf.popped key
    have next := c.erase registered rfl addressed hfound (popped ▸ wf') (by rw [popped]; rfl)
      (by rw [popped, map])
    refine ⟨c.lawful next rfl rfl (.of_noCall noCall) (fun h absent => ?_)
      (fun h present => ?_) fun h => ?_, next⟩
    · obtain ⟨rfl, -⟩ := same h
      rw [hfound] at absent
      cases absent
    · obtain ⟨rfl, rfl⟩ := same h
      rw [hfound] at present
      obtain rfl := Option.some.inj present
      rfl
    · cases haddr.symm.trans h

/-- Every event keeps the invariant, and its entry shows what it should. -/
theorem Dispatcher.Consistent.step
    (writes : ∀ packet own, (write wfunc warg packet own).1 = 0) (wf : event.WF)
    (step : event.step write s = .ok (shown, s'))
    (noWrap : (event.entry s shown s').wraps = false) :
    (event.entry s shown s').Lawful history ∧
      s'.proto.toDispatcher.Consistent wfunc warg (history ++ [event.entry s shown s']) := by
  rcases haddr : event.addresses with _ | ⟨key, result⟩
  · by_cases call : ∃ command args func arg, event = .call command args func arg
    · obtain ⟨command, args, func, arg, rfl⟩ := call
      exact c.step_call writes wf step noWrap
    · exact c.step_other wf haddr
        (fun command args func arg h => call ⟨command, args, func, arg, h⟩) step
  · exact c.step_addresses wf haddr step

end Step

/-- Along a whole session, every entry shows what it should. -/
theorem Dispatcher.Consistent.run (c : s.proto.toDispatcher.Consistent wfunc warg history)
    (writes : ∀ packet own, (write wfunc warg packet own).1 = 0) {events : List SessionEvent}
    (wf : ∀ event ∈ events, event.WF) {entries : List Entry} {after : Session U}
    (run : Session.run write s events = .ok (entries, after))
    (noWrap : ∀ e ∈ entries, e.wraps = false) :
    ∀ past e later, entries = past ++ e :: later → e.Lawful (history ++ past) := by
  induction events generalizing s history entries with
  | nil =>
    obtain ⟨rfl, -⟩ := Prod.mk.inj (Except.ok.inj run)
    intro past e later split
    simp at split
  | cons event events ih =>
    simp only [Session.run] at run
    split at run
    · cases run
    next shown s' hstep =>
    split at run
    · cases run
    next entries' s'' hrun =>
    obtain ⟨rfl, rfl⟩ := Prod.mk.inj (Except.ok.inj run)
    obtain ⟨lawful, next⟩ := c.step writes (wf event (by simp)) hstep (noWrap _ (by simp))
    intro past e later split
    rcases past with _ | ⟨first, past⟩
    · obtain ⟨rfl, -⟩ := List.cons.inj split
      simpa using lawful
    · obtain ⟨rfl, tail⟩ := List.cons.inj split
      have rest := ih next (fun event h => wf event (by simp [h])) hrun
        (fun e h => noWrap e (by simp [h])) past e later tail
      simpa using rest

/-! ## Whole sessions -/

/-- Event `j` is the first event after the registration number `i`, of the callback `cb`, that
addresses the ask key of that registration; `result` is what `cb` is due to be given. -/
def Completes (entries : List Entry) (i j : Nat) (cb : Callback) (result : AmpResult) : Prop :=
  ∃ e key, entries[j]? = some e ∧ e.event.addresses = some (key, result) ∧
    Open Entry.registered Entry.addressed (entries.take j) i key cb

/-- The life of the callbacks of a session. -/
structure Lifecycle (entries : List Entry) : Prop where
  /-- A call that fits succeeds, and a call that succeeds registers its callback. -/
  calls : ∀ {j : Nat} {e : Entry}, entries[j]? = some e → e.Calls
  /-- A registered callback is invoked by the first later event that addresses its key. -/
  invoked : ∀ {i j cb result}, Completes entries i j cb result →
    ∃ e, entries[j]? = some e ∧ e.callback = some (cb, result)
  /-- A callback that is invoked completes just one registration, -/
  only : ∀ {j e cb result}, entries[j]? = some e → e.callback = some (cb, result) →
    ∃! i, Completes entries i j cb result
  /-- and no registration is completed twice. -/
  once : ∀ {i j j' cb cb' result result'}, Completes entries i j cb result →
    Completes entries i j' cb' result' → j = j'
  /-- An event that addresses a key that is not outstanding does nothing. -/
  unknown : ∀ {j e key result}, entries[j]? = some e → e.event.addresses = some (key, result) →
    (∀ i cb, ¬ Completes entries i j cb result) →
    e.invoked = none ∧ e.after.outstandingRequests = e.before.outstandingRequests ∧
      ∀ askKey, e.event = .cancel askKey → e.ret = some ampNoSuchAskKey
  /-- The table counts the calls that returned 0 without the callbacks invoked. -/
  length : ∀ {j e}, entries[j]? = some e →
    (tableLength e.after.outstandingRequests : Int) =
      registrations (entries.take (j + 1)) - invocations (entries.take (j + 1))

variable {entries : List Entry}

theorem take_append_drop_of_getElem? {j : Nat} (h : entries[j]? = some e) :
    entries = entries.take j ++ e :: entries.drop (j + 1) := by
  obtain ⟨hj, rfl⟩ := List.getElem?_eq_some_iff.1 h
  rw [← List.drop_eq_getElem_cons hj, List.take_append_drop]

/-- An event completes no registration before an event that has addressed its key. -/
theorem Completes.le {i j j' : Nat} {cb cb' : Callback} {result result' : AmpResult}
    (first : Completes entries i j cb result) (second : Completes entries i j' cb' result') :
    j' ≤ j := by
  obtain ⟨e, key, hj, haddr, isOpen⟩ := first
  obtain ⟨e', key', hj', haddr', isOpen'⟩ := second
  by_contra! later
  have hi := isOpen.lt_length
  rw [List.length_take] at hi
  have opened := isOpen.opened
  have opened' := isOpen'.opened
  rw [List.getElem?_take_of_lt (by omega)] at opened opened'
  obtain ⟨rfl, -⟩ := Prod.mk.inj (Option.some.inj (opened.symm.trans opened'))
  exact isOpen'.notClosed j e (by omega) (by rw [List.getElem?_take_of_lt later, hj])
    (by rw [Entry.addressed, haddr]; rfl)

theorem Lifecycle.of_lawful
    (lawful : ∀ past e later, entries = past ++ e :: later → e.Lawful past) :
    Lifecycle entries := by
  have at_ {j : Nat} {e : Entry} (h : entries[j]? = some e) : e.Lawful (entries.take j) :=
    lawful _ _ _ (take_append_drop_of_getElem? h)
  refine ⟨fun hj => (at_ hj).calls, ?_, ?_, ?_, ?_, ?_⟩
  · rintro i j cb result ⟨e, key, hj, haddr, isOpen⟩
    exact ⟨e, hj, (at_ hj).invoked haddr isOpen⟩
  · intro j e cb result hj hcallback
    obtain ⟨key, i, haddr, isOpen⟩ := (at_ hj).only hcallback
    refine ⟨i, ⟨e, key, hj, haddr, isOpen⟩, ?_⟩
    rintro i' ⟨e', key', hj', haddr', isOpen'⟩
    obtain rfl : e = e' := Option.some.inj (hj.symm.trans hj')
    obtain ⟨rfl, -⟩ := Prod.mk.inj (Option.some.inj (haddr.symm.trans haddr'))
    exact (at_ hj).unique isOpen' isOpen
  · intro i j j' cb cb' result result' first second
    exact Nat.le_antisymm (second.le first) (first.le second)
  · intro j e key result hj haddr none
    obtain ⟨noUserCode, ret, table⟩ := (at_ hj).unknown haddr fun i cb isOpen =>
      none i cb ⟨e, key, hj, haddr, isOpen⟩
    refine ⟨noUserCode, table, ?_⟩
    intro askKey hcancel
    rw [ret, hcancel]
    rfl
  · intro j e hj
    rw [(at_ hj).length, List.take_add_one, hj]
    rfl

/-- In every session of a new proto whose write handler always returns 0, in which no call is
given an ask key that is still outstanding, each callback lives as it should, whatever the peer
sends and whatever user code does. -/
theorem callback_lifecycle {mem mem' : Mem} {keyData : Buffer (256 + 1)}
    {valData : Buffer (256 * 256)} {new : AmpProto}
    (hnew : ampNewProto mem keyData valData = .ok (some new, mem')) {wfunc warg : Nat}
    (writes : ∀ packet own, (write wfunc warg packet own).1 = 0) (own : U)
    {events : List SessionEvent} (wf : ∀ event ∈ events, event.WF) {entries : List Entry}
    {after : Session U}
    (run : Session.run write (.start new wfunc warg own) events = .ok (entries, after))
    (noWrap : ∀ e ∈ entries, e.wraps = false) : Lifecycle entries := by
  obtain ⟨-, wfNew, empty, -, -, -⟩ := ampNewProto_ok hnew
  have start : (ampSetWriteHandler new.toDispatcher wfunc warg).Consistent wfunc warg [] := by
    refine ⟨⟨wfNew.outstanding, wfNew.responders⟩, rfl, ?_, ?_⟩
    · exact (congrArg (Tracks Entry.registered Entry.addressed []) empty).mpr .empty
    · have length := wfNew.length
      rw [empty] at length
      exact congrArg (· + _) length
  exact .of_lawful fun past e later split => by
    simpa using Dispatcher.Consistent.run (s := .start new wfunc warg own)
      start writes wf run noWrap past e later split

/-- Of two calls the first is answered and the second is cancelled, twice. -/
theorem callback_lifecycle_answered :
    ∃ new entries after, ampNewProto plenty (.zeros _) (.zeros _) = .ok (some new, plenty) ∧
      Session.run (fun _ _ _ own => (0, own)) (.start new 0 0 ())
        [.call Key.command (AmpBox.new hashString) 5 6, .call Key.ask (AmpBox.new hashString) 7 8,
          .inbound ((AmpBox.new hashString).add Key.answer [49]), .cancel 2, .cancel 2] =
          .ok (entries, after) ∧
      entries.map (fun e => (e.ret, e.askKey, e.callback)) =
        [(some 0, some 1, none), (some 0, some 2, none),
          (none, none,
            some (⟨1, 5, 6⟩, .success ⟨1, (AmpBox.new hashString).add Key.answer [49]⟩)),
          (none, none, some (⟨2, 7, 8⟩, .cancel)), (some ampNoSuchAskKey, none, none)] ∧
      Lifecycle entries := by
  have answer : ((AmpBox.new hashString).add Key.answer [49]).WF :=
    ((AmpBox.wf_new hashString).add ⟨by decide, by decide, by decide⟩).2.1
  have wf : ∀ event ∈ [SessionEvent.call Key.command (AmpBox.new hashString) 5 6,
      .call Key.ask (AmpBox.new hashString) 7 8,
      .inbound ((AmpBox.new hashString).add Key.answer [49]), .cancel 2, .cancel 2], event.WF := by
    simp [SessionEvent.WF, AmpBox.wf_new, answer]
  have ran : ∃ new entries after,
      ampNewProto plenty (.zeros _) (.zeros _) = .ok (some new, plenty) ∧
      Session.run (fun _ _ _ own => (0, own)) (.start new 0 0 ())
        [.call Key.command (AmpBox.new hashString) 5 6, .call Key.ask (AmpBox.new hashString) 7 8,
          .inbound ((AmpBox.new hashString).add Key.answer [49]), .cancel 2, .cancel 2] =
          .ok (entries, after) ∧
      entries.map (fun e => (e.ret, e.askKey, e.callback)) =
        [(some 0, some 1, none), (some 0, some 2, none),
          (none, none,
            some (⟨1, 5, 6⟩, .success ⟨1, (AmpBox.new hashString).add Key.answer [49]⟩)),
          (none, none, some (⟨2, 7, 8⟩, .cancel)), (some ampNoSuchAskKey, none, none)] ∧
      ∀ e ∈ entries, e.wraps = false :=
    ⟨_, _, _, rfl, rfl, rfl, by decide⟩
  obtain ⟨new, entries, after, hnew, run, shown, noWrap⟩ := ran
  exact ⟨new, entries, after, hnew, run, shown,
    callback_lifecycle hnew (fun _ _ => rfl) () wf run noWrap⟩

end LibAmp
