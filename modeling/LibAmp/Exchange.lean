import LibAmp.Lib.Ledger
import LibAmp.Endpoints

/-!
# What each endpoint keeps

The invariants of the two endpoints. That of the caller speaks of the answers of the server, of
which it has read some; that of the server speaks of the calls of the caller, of which it was
given some. Every action keeps them, and so does dispatching a box of the other side.
-/

namespace LibAmp

/-! ## Calls by number -/

/-- The ask key of call number `i`. -/
def nthKey (i : Nat) : UInt32 := UInt32.ofNat (i + 1)

theorem nthKey_inj {i j : Nat} (hi : i + 1 < 2 ^ 32) (hj : j + 1 < 2 ^ 32)
    (h : nthKey i = nthKey j) : i = j := by
  have same := congrArg UInt32.toNat h
  simp only [nthKey, UInt32.toNat_ofNat'] at same
  omega

theorem ofNat_add_one (n : Nat) : UInt32.ofNat n + 1 = nthKey n := by
  apply UInt32.toNat_inj.1
  simp only [nthKey, UInt32.toNat_add, UInt32.toNat_ofNat', UInt32.toNat_one]
  omega

/-- The callback that is registered for call number `i`. -/
def Call.callback (call : Call) (i : Nat) : Callback := ⟨(nthKey i).toInt32, call.func, call.arg⟩

/-- The box that is sent for call number `i`: its arguments and two special keys. -/
def Call.request (call : Call) (i : Nat) : BoxMap :=
  (call.args.insert Key.command call.command.bytes).insert Key.ask (askBytes (nthKey i))

/-- The box that is sent back for call number `i`: what it is answered with and a special key. -/
def answerMap (i : Nat) (m : BoxMap) : BoxMap := m.insert Key.answer (askBytes (nthKey i))

/-- What the calls put on the stream, in order. -/
def requestMaps (calls : List Call) : List BoxMap := calls.mapIdx fun i call => call.request i

/-- What the answers put on the stream, in order. -/
def answerMaps (answers : List (Nat × BoxMap)) : List BoxMap :=
  answers.map fun a => answerMap a.1 a.2

theorem requestMaps_concat (calls : List Call) (call : Call) :
    requestMaps (calls ++ [call]) = requestMaps calls ++ [call.request calls.length] := by
  rw [requestMaps, List.mapIdx_concat, requestMaps]

theorem forall₂_concat {α β : Type} {R : α → β → Prop} {l : List α} {l' : List β} {a : α} {b : β}
    (h : List.Forall₂ R l l') (hab : R a b) : List.Forall₂ R (l ++ [a]) (l' ++ [b]) :=
  List.rel_append h (.cons hab .nil)

variable {U : Type} {write : WriteHandler U} {proto : Dispatcher}

/-! ## The caller -/

/-- The ask keys of the callbacks that were run. -/
def Caller.completed (own : Caller) : List UInt32 := own.results.map (·.1.askKey.toUInt32)

/-- What the callback of call number `i` may be given, once `read` answers have been read. -/
def Due (answers : List (Nat × BoxMap)) (read i : Nat) : AmpResult → Prop
  | .success response => response.answerKey = nthKey i ∧
      ∃ m, (i, m) ∈ answers.take read ∧ response.args.toMap = answerMap i m
  | .error _ => False
  | .cancel => True

/-- The invariant of the caller. -/
structure Caller.Inv (server : Dispatcher) (answers : List (Nat × BoxMap)) (read : Nat)
    (proto : Dispatcher) (own : Caller) : Prop where
  wf : proto.WF
  installed : ∃ func arg, proto.write = .installed func arg
  lastAskKey : proto.lastAskKey = UInt32.ofNat own.calls.length
  few : own.calls.length < 2 ^ 32
  packets : List.Forall₂ IsPacket own.sent (requestMaps own.calls)
  registered : ∀ call ∈ own.calls,
    ∃ responder, ampGetResponder server.responders call.command = some responder
  outstanding : ∀ key cb, proto.outstanding.lookup key = some cb ↔
    ∃ i call, own.calls[i]? = some call ∧ key = nthKey i ∧ cb = call.callback i ∧
      key ∉ own.completed
  results : ∀ cb result, (cb, result) ∈ own.results →
    ∃ i call, own.calls[i]? = some call ∧ cb = call.callback i ∧ Due answers read i result
  once : own.completed.Nodup
  due : ∀ a ∈ answers, a.1 < own.calls.length ∧ ∀ key ∈ specialKeys, key ∉ a.2
  read_le : read ≤ answers.length
  answered : ∀ a ∈ answers.take read, nthKey a.1 ∈ own.completed

/-- Calls and packets are only added. -/
structure Caller.Grows (own own' : Caller) : Prop where
  calls : own.calls <+: own'.calls
  sent : own.sent <+: own'.sent

theorem Caller.Grows.refl (own : Caller) : own.Grows own := ⟨List.prefix_rfl, List.prefix_rfl⟩

theorem Caller.Grows.trans {own own' own'' : Caller} (h : own.Grows own') (h' : own'.Grows own'') :
    own.Grows own'' :=
  ⟨h.calls.trans h'.calls, h.sent.trans h'.sent⟩

variable {server : Dispatcher} {answers : List (Nat × BoxMap)} {read : Nat} {own : Caller}

theorem Due.mono {read' i : Nat} {result : AmpResult} (due : Due answers read i result)
    (le : read ≤ read') : Due answers read' i result := by
  cases result with
  | success response =>
    obtain ⟨key, m, hm, args⟩ := due
    exact ⟨key, m, List.take_subset_take_left answers le hm, args⟩
  | error => exact due
  | cancel => trivial

namespace Caller.Inv

variable (inv : Caller.Inv server answers read proto own)
include inv

/-- The key of a call is that of no other call. -/
theorem key_inj {i j : Nat} (hi : i < own.calls.length) (hj : j < own.calls.length)
    (h : nthKey i = nthKey j) : i = j := by
  have := inv.few
  exact nthKey_inj (by omega) (by omega) h

/-- A key that is not outstanding belongs to a call that was completed. -/
theorem completed_of_absent {i : Nat} (hi : i < own.calls.length)
    (absent : proto.outstanding.lookup (nthKey i) = none) : nthKey i ∈ own.completed := by
  by_contra waiting
  have found := (inv.outstanding (nthKey i) _).2
    ⟨i, own.calls[i], List.getElem?_eq_getElem hi, rfl, rfl, waiting⟩
  rw [absent] at found
  cases found

/-- A result that is due completes an outstanding call, whatever is read besides. -/
theorem complete {key : UInt32} {cb : Callback} {result : AmpResult} {read' : Nat}
    (found : proto.outstanding.lookup key = some cb) (le : read ≤ read')
    (read_le : read' ≤ answers.length)
    (due : ∀ i, i < own.calls.length → key = nthKey i → Due answers read' i result)
    (answered : ∀ a ∈ answers.take read', nthKey a.1 ∈ own.completed ∨ nthKey a.1 = key) :
    Caller.Inv server answers read' (proto.popped key)
      { own with results := own.results ++ [(cb, result)] } := by
  obtain ⟨wf, map⟩ := inv.wf.popped key
  obtain ⟨i, call, hi, hkey, hcb, waiting⟩ := (inv.outstanding key cb).1 found
  have completed : Caller.completed { own with results := own.results ++ [(cb, result)] } =
      own.completed ++ [key] := by
    simp [Caller.completed, hcb, hkey, Call.callback]
  refine ⟨wf, inv.installed, inv.lastAskKey, inv.few, inv.packets, inv.registered, ?_, ?_, ?_,
    inv.due, read_le, ?_⟩
  · intro k c
    rw [map, completed]
    by_cases same : k = key
    · subst same
      simp [Finmap.lookup_erase]
    · rw [Finmap.lookup_erase_ne same, inv.outstanding]
      simp [same]
  · intro c r hr
    rcases List.mem_append.1 hr with old | new
    · obtain ⟨j, call', hj, hc, hdue⟩ := inv.results c r old
      exact ⟨j, call', hj, hc, hdue.mono le⟩
    · obtain ⟨rfl, rfl⟩ := Prod.mk.inj (List.mem_singleton.1 new)
      exact ⟨i, call, hi, hcb, due i (List.getElem?_eq_some_iff.1 hi).1 hkey⟩
  · rw [completed]
    exact List.nodup_append.2 ⟨inv.once, List.nodup_singleton _, by grind⟩
  · intro a ha
    rw [completed]
    rcases answered a ha with old | new
    · exact List.mem_append_left _ old
    · exact List.mem_append_right _ (List.mem_singleton.2 new)

/-- Only calls are completed. -/
theorem lt_of_completed {key : UInt32} (h : key ∈ own.completed) :
    ∃ i < own.calls.length, key = nthKey i := by
  obtain ⟨⟨cb, result⟩, he, rfl⟩ := List.mem_map.1 h
  obtain ⟨i, call, hi, rfl, -⟩ := inv.results cb result he
  exact ⟨i, (List.getElem?_eq_some_iff.1 hi).1, rfl⟩

section NextCall

variable {call : Call} (few : own.calls.length + 1 < 2 ^ 32)
include few

omit inv in
/-- The key of the next call is that of no call before. -/
theorem nextKey_ne {i : Nat} (hi : i < own.calls.length) :
    nthKey own.calls.length ≠ nthKey i := by
  intro h
  have := nthKey_inj few (by omega) h
  omega

omit few in
theorem nextKey : proto.lastAskKey + 1 = nthKey own.calls.length := by
  rw [inv.lastAskKey, ofNat_add_one]

/-- Outstanding after one more call are the calls that were, and the new one. -/
theorem called_outstanding {key : UInt32} {cb : Callback} :
    (proto.called call.func call.arg).outstanding.lookup key = some cb ↔
      ∃ i c, (own.calls ++ [call])[i]? = some c ∧ key = nthKey i ∧ cb = c.callback i ∧
        key ∉ own.completed := by
  obtain ⟨-, map⟩ := inv.wf.called call.func call.arg
  rw [inv.nextKey] at map
  rw [map]
  constructor
  · intro found
    by_cases same : key = nthKey own.calls.length
    · subst same
      rw [Finmap.lookup_insert] at found
      obtain rfl := Option.some.inj found
      refine ⟨own.calls.length, call, by simp, rfl, rfl, ?_⟩
      intro done
      obtain ⟨i, hi, again⟩ := inv.lt_of_completed done
      exact nextKey_ne few hi again
    · rw [Finmap.lookup_insert_of_ne _ same] at found
      obtain ⟨i, c, hi, hkey, hcb, waiting⟩ := (inv.outstanding key cb).1 found
      exact ⟨i, c, Ledger.getElem?_concat_eq_some.2 (.inl hi), hkey, hcb, waiting⟩
  · rintro ⟨i, c, hi, rfl, rfl, waiting⟩
    rcases Ledger.getElem?_concat_eq_some.1 hi with before | ⟨rfl, rfl⟩
    · rw [Finmap.lookup_insert_of_ne _
        (nextKey_ne few (List.getElem?_eq_some_iff.1 before).1).symm]
      exact (inv.outstanding _ _).2 ⟨i, c, before, rfl, rfl, waiting⟩
    · rw [Finmap.lookup_insert]
      rfl

/-- One more call, whose key is new. -/
theorem called {packet : List UInt8}
    (registered : ∃ responder, ampGetResponder server.responders call.command = some responder)
    (packs : IsPacket packet (call.request own.calls.length)) :
    Caller.Inv server answers read (proto.called call.func call.arg)
      ⟨own.sent ++ [packet], own.calls ++ [call], own.results⟩ := by
  have length : (own.calls ++ [call]).length = own.calls.length + 1 := by simp
  refine ⟨(inv.wf.called _ _).1, inv.installed, ?_, ?_, ?_, ?_,
    fun _ _ => inv.called_outstanding few, ?_, inv.once, ?_, inv.read_le, inv.answered⟩
  · rw [length, ← nthKey, ← inv.nextKey]
    rfl
  · rw [length]
    exact few
  · rw [requestMaps_concat]
    exact forall₂_concat inv.packets packs
  · intro c hc
    rcases List.mem_append.1 hc with h | h
    · exact inv.registered c h
    · exact List.mem_singleton.1 h ▸ registered
  · intro cb result hresult
    obtain ⟨i, c, hi, hcb, hdue⟩ := inv.results cb result hresult
    exact ⟨i, c, Ledger.getElem?_concat_eq_some.2 (.inl hi), hcb, hdue⟩
  · intro a ha
    obtain ⟨lt, plain⟩ := inv.due a ha
    exact ⟨by rw [length]; omega, plain⟩

end NextCall

/-- A call that may be made returns 0 and puts its packet on the stream. -/
theorem call {command : CString} {args : AmpBox} {func arg : Nat}
    (allowed : (CallerAction.call command args func arg).Allowed server (proto, plenty, own))
    (short : command.bytes.length ≤ maxValueLength) :
    ∃ packet, IsPacket packet (Call.request ⟨command, args.toMap, func, arg⟩ own.calls.length) ∧
      ampCall Caller.write proto plenty command (some args) func arg own =
        .ok ⟨0, some (nthKey own.calls.length), proto.called func arg,
          some (args.asking command (proto.lastAskKey + 1)), plenty,
          { own with sent := own.sent ++ [packet] }⟩ := by
  obtain ⟨wf, -, -, -, fits⟩ := allowed
  obtain ⟨wfunc, warg, installed⟩ := inv.installed
  obtain ⟨-, -, wf', map⟩ := wf.asking (proto.lastAskKey + 1) short
  have packs := wf'.isPacket
  rw [map] at packs
  refine ⟨serializedBytes (args.asking command (proto.lastAskKey + 1)), ?_, ?_⟩
  · rw [Call.request, ← inv.nextKey]
    exact packs
  · rw [ampCall_written func arg own wf short installed fits, ← inv.nextKey]
    rfl

/-- Every action the caller may take keeps its invariant. -/
theorem act {action : CallerAction} (allowed : action.Allowed server (proto, plenty, own)) :
    ∃ proto' own', action.step (proto, plenty, own) = .ok (proto', plenty, own') ∧
      Caller.Inv server answers read proto' own' ∧ own.Grows own' := by
  cases action with
  | call command args func arg =>
    obtain ⟨-, -, registered, few, -⟩ := id allowed
    by_cases short : command.bytes.length ≤ maxValueLength
    · obtain ⟨packet, packs, called⟩ := inv.call allowed short
      refine ⟨_, _, ?_, inv.called few registered packs, List.prefix_append _ _,
        List.prefix_append _ _⟩
      simp only [CallerAction.step, called]
      rfl
    · refine ⟨proto, own, ?_, inv, .refl own⟩
      simp only [CallerAction.step, ampCall_long (Nat.lt_of_not_le short)]
      rw [if_pos ampBadValSize_ne_zero]
  | cancel askKey =>
    simp only [CallerAction.step, ampCancel, completeCall_plenty]
    rcases hfound : tableGet proto.outstandingRequests askKey.toUInt32 with _ | cb
    · rw [Dispatcher.popped_absent hfound]
      exact ⟨proto, own, rfl, inv, .refl own⟩
    · rw [inv.wf.get] at hfound
      exact ⟨_, _, rfl, inv.complete hfound le_rfl inv.read_le (fun _ _ _ => trivial)
        fun a ha => .inl (inv.answered a ha), List.prefix_rfl, List.prefix_rfl⟩

theorem acts {actions : List CallerAction}
    (allowed : Guarded.Allowed (CallerAction.Allowed server) CallerAction.step
      (proto, plenty, own) actions) :
    ∃ proto' own', Guarded.run CallerAction.step (proto, plenty, own) actions =
        .ok (proto', plenty, own') ∧
      Caller.Inv server answers read proto' own' ∧ own.Grows own' := by
  have keeps (state : Dispatcher × Mem × Caller) (action : CallerAction)
      (kept : state.2.1 = plenty ∧ Caller.Inv server answers read state.1 state.2.2 ∧
        own.Grows state.2.2) (ok : action.Allowed server state) :
      ∃ after, action.step state = .ok after ∧ after.2.1 = plenty ∧
        Caller.Inv server answers read after.1 after.2.2 ∧ own.Grows after.2.2 := by
    obtain ⟨proto₁, mem₁, own₁⟩ := state
    obtain ⟨rfl, inv₁, grows₁⟩ := kept
    obtain ⟨proto₂, own₂, step, inv₂, grows₂⟩ := inv₁.act ok
    exact ⟨_, step, rfl, inv₂, grows₁.trans grows₂⟩
  obtain ⟨⟨proto', mem, own'⟩, run, rfl, inv', grows⟩ :=
    Guarded.run_inv keeps ⟨rfl, inv, .refl own⟩ allowed
  exact ⟨proto', own', run, inv', grows⟩

section NextAnswer

variable {a : Nat × BoxMap} (next : answers[read]? = some a)
include next

omit inv in
theorem mem_take_next {b : Nat × BoxMap} :
    b ∈ answers.take (read + 1) ↔ b ∈ answers.take read ∨ b = a := by
  rw [List.take_add_one, next, List.mem_append]
  simp

/-- The answer to a call that was cancelled is read, and nothing happens. -/
theorem pass (absent : proto.outstanding.lookup (nthKey a.1) = none) :
    Caller.Inv server answers (read + 1) proto own := by
  obtain ⟨bound, rfl⟩ := List.getElem?_eq_some_iff.1 next
  obtain ⟨lt, -⟩ := inv.due _ (List.getElem_mem bound)
  refine ⟨inv.wf, inv.installed, inv.lastAskKey, inv.few, inv.packets, inv.registered,
    inv.outstanding, ?_, inv.once, inv.due, bound, ?_⟩
  · intro cb result hresult
    obtain ⟨i, call, hi, hcb, hdue⟩ := inv.results cb result hresult
    exact ⟨i, call, hi, hcb, hdue.mono (Nat.le_succ read)⟩
  · intro b hb
    rcases (mem_take_next next).1 hb with old | rfl
    · exact inv.answered b old
    · exact inv.completed_of_absent lt absent

/-- The callback of an outstanding call is given the answer. -/
theorem receive {cb : Callback} (found : proto.outstanding.lookup (nthKey a.1) = some cb)
    {box : AmpBox} (map : box.toMap = answerMap a.1 a.2) :
    Caller.Inv server answers (read + 1) (proto.popped (nthKey a.1))
      { own with results := own.results ++ [(cb, .success ⟨nthKey a.1, box⟩)] } := by
  obtain ⟨bound, ha⟩ := List.getElem?_eq_some_iff.1 next
  obtain ⟨lt, -⟩ := inv.due a (ha ▸ List.getElem_mem bound)
  have due (i : Nat) (hi : i < own.calls.length) (same : nthKey a.1 = nthKey i) :
      Due answers (read + 1) i (.success ⟨nthKey a.1, box⟩) := by
    obtain rfl := inv.key_inj lt hi same
    exact ⟨rfl, a.2, (mem_take_next next).2 (.inr rfl), map⟩
  refine inv.complete found (Nat.le_succ read) bound due ?_
  intro b hb
  rcases (mem_take_next next).1 hb with old | rfl
  · exact .inl (inv.answered b old)
  · exact .inr rfl

/-- Dispatching the next answer keeps the invariant, whatever the callback does. -/
theorem dispatch {policy : CallerPolicy}
    (allowed : ∀ proto own, Guarded.Allowed (CallerAction.Allowed server) CallerAction.step
      (proto, plenty, own) (policy proto own)) {box : AmpBox} (wf : box.WF)
    (map : box.toMap = answerMap a.1 a.2) :
    ∃ r, libraryDispatch Caller.write (Caller.user policy) plenty (some box) (proto, own) = .ok r ∧
      r.ret = 0 ∧ r.mem = plenty ∧ Caller.Inv server answers (read + 1) r.own.1 r.own.2 ∧
      own.Grows r.own.2 := by
  obtain ⟨-, plain⟩ := inv.due a (List.mem_of_getElem? next)
  have noCommand : Key.command ∉ box.toMap := by
    rw [map, answerMap, Finmap.mem_insert, not_or]
    exact ⟨by decide, plain _ (by decide)⟩
  have answer : box.toMap.lookup Key.answer = some (askBytes (nthKey a.1)) := by
    rw [map, answerMap, Finmap.lookup_insert]
  obtain ⟨key, -⟩ | ⟨key, hkey, run⟩ :=
    process_answer Caller.write proto wf (some box) own noCommand answer
  · rw [answerKey_askBytes] at key
    cases key
  rw [answerKey_askBytes] at hkey
  obtain rfl := Option.some.inj hkey
  rw [completeCall_plenty, toUInt32_toInt32, inv.wf.get] at run
  simp only [libraryDispatch, run]
  rcases found : proto.outstanding.lookup (nthKey a.1) with _ | cb
  · have absent : tableGet proto.outstandingRequests (nthKey a.1) = none :=
      (inv.wf.get _).trans found
    rw [Dispatcher.popped_absent absent]
    exact ⟨_, rfl, rfl, rfl, inv.pass next found, .refl own⟩
  · obtain ⟨proto', own', acts, inv', grows⟩ := (inv.receive next found map).acts (allowed _ _)
    simp only [Caller.user, Caller.invoked, acts]
    exact ⟨_, rfl, rfl, rfl, inv', grows.calls, grows.sent⟩

end NextAnswer

end Caller.Inv

/-! ## The server -/

/-- What the responder of call number `i` sees. -/
structure Serves (proto : Dispatcher) (call : Call) (i : Nat) (responder : Responder)
    (request : AmpRequest) : Prop where
  responder : ampGetResponder proto.responders call.command = some responder
  command : request.command.value = call.command.bytes
  askKey : request.askKey = some ⟨askBytes (nthKey i)⟩
  args : request.args.toMap = call.request i

/-- The invariant of the server. -/
structure Server.Inv (calls : List Call) (proto : Dispatcher) (own : Server) : Prop where
  installed : ∃ func arg, proto.write = .installed func arg
  packets : List.Forall₂ IsPacket own.sent (answerMaps own.answers)
  requests_le : own.requests.length ≤ calls.length
  kept : ∀ i entry, own.requests[i]? = some entry →
    ∃ call, calls[i]? = some call ∧ Serves proto call i entry.1 entry.2
  answered : ∀ a ∈ own.answers, a.1 < own.requests.length ∧ ∀ key ∈ specialKeys, key ∉ a.2
  once : (own.answers.map (·.1)).Nodup

/-- Answers and packets are only added. -/
structure Server.Grows (own own' : Server) : Prop where
  answers : own.answers <+: own'.answers
  sent : own.sent <+: own'.sent

theorem Server.Grows.refl (own : Server) : own.Grows own := ⟨List.prefix_rfl, List.prefix_rfl⟩

theorem Server.Grows.trans {own own' own'' : Server} (h : own.Grows own') (h' : own'.Grows own'') :
    own.Grows own'' :=
  ⟨h.answers.trans h'.answers, h.sent.trans h'.sent⟩

namespace Server.Inv

variable {calls : List Call} {own : Server} (inv : Server.Inv calls proto own)
include inv

/-- An answer that may be given returns 0 and puts its packet on the stream. -/
theorem answer {answer : Answer} (allowed : answer.Allowed (proto, plenty, own))
    {responder : Responder} {request : AmpRequest}
    (found : own.requests[answer.index]? = some (responder, request)) :
    ∃ packet, IsPacket packet (answerMap answer.index answer.args.toMap) ∧
      ampRespond Server.write proto plenty request (some answer.args) own =
        .ok ⟨0, some (answer.args.add Key.answer (askBytes (nthKey answer.index))), plenty,
          { own with sent := own.sent ++ [packet] }⟩ := by
  obtain ⟨func, arg, installed⟩ := inv.installed
  obtain ⟨call, -, serves⟩ := inv.kept _ _ found
  have storable := storable_askBytes Key.answer (by decide) (nthKey answer.index)
  obtain ⟨-, wf, map⟩ := allowed.wf.add storable
  have packs := wf.isPacket
  rw [map] at packs
  exact ⟨_, packs, ampRespond_written own allowed.wf serves.askKey storable installed
    (allowed.fits _ _ _ found serves.askKey)⟩

/-- Every answer the server may give keeps its invariant. -/
theorem respond {answer : Answer} (allowed : answer.Allowed (proto, plenty, own)) :
    ∃ own', answer.step (proto, plenty, own) = .ok (proto, plenty, own') ∧
      Server.Inv calls proto own' ∧ own'.requests = own.requests ∧ own.Grows own' := by
  obtain ⟨⟨responder, request⟩, hrequest⟩ : ∃ entry, own.requests[answer.index]? = some entry :=
    ⟨_, List.getElem?_eq_getElem allowed.kept⟩
  obtain ⟨packet, packs, written⟩ := inv.answer allowed hrequest
  have step : answer.step (proto, plenty, own) = .ok (proto, plenty,
      ⟨own.sent ++ [packet], own.requests,
        own.answers ++ [(answer.index, answer.args.toMap)]⟩) := by
    simp only [Answer.step, hrequest, written]
  refine ⟨_, step, ⟨inv.installed, ?_, inv.requests_le, inv.kept, ?_, ?_⟩, rfl,
    List.prefix_append _ _, List.prefix_append _ _⟩
  · rw [answerMaps, List.map_append]
    exact forall₂_concat inv.packets packs
  · intro a ha
    rcases List.mem_append.1 ha with old | new
    · exact inv.answered a old
    · obtain rfl := List.mem_singleton.1 new
      exact ⟨allowed.kept, allowed.plain⟩
  · rw [List.map_append, List.nodup_append]
    refine ⟨inv.once, List.nodup_singleton _, ?_⟩
    intro i hi j hj same
    rw [List.map_singleton, List.mem_singleton] at hj
    rw [same, hj] at hi
    exact allowed.once hi

theorem acts {actions : List Answer}
    (allowed : Guarded.Allowed Answer.Allowed Answer.step (proto, plenty, own) actions) :
    ∃ own', Guarded.run Answer.step (proto, plenty, own) actions = .ok (proto, plenty, own') ∧
      Server.Inv calls proto own' ∧ own'.requests = own.requests ∧ own.Grows own' := by
  have keeps (state : Dispatcher × Mem × Server) (answer : Answer)
      (kept : state.1 = proto ∧ state.2.1 = plenty ∧ Server.Inv calls proto state.2.2 ∧
        state.2.2.requests = own.requests ∧ own.Grows state.2.2) (ok : answer.Allowed state) :
      ∃ after, answer.step state = .ok after ∧ after.1 = proto ∧ after.2.1 = plenty ∧
        Server.Inv calls proto after.2.2 ∧ after.2.2.requests = own.requests ∧
        own.Grows after.2.2 := by
    obtain ⟨proto₁, mem₁, own₁⟩ := state
    obtain ⟨rfl, rfl, inv₁, same₁, grows₁⟩ := kept
    obtain ⟨own₂, step, inv₂, same₂, grows₂⟩ := inv₁.respond ok
    exact ⟨_, step, rfl, rfl, inv₂, same₂.trans same₁, grows₁.trans grows₂⟩
  obtain ⟨⟨proto', mem, own'⟩, run, rfl, rfl, inv', same, grows⟩ :=
    Guarded.run_inv keeps ⟨rfl, rfl, inv, rfl, .refl own⟩ allowed
  exact ⟨own', run, inv', same, grows⟩

/-- One more request, kept for the next call. -/
theorem keep {call : Call} (next : calls[own.requests.length]? = some call)
    {responder : Responder} {request : AmpRequest}
    (serves : Serves proto call own.requests.length responder request) :
    Server.Inv calls proto (own.invoked (.responder responder request)) := by
  have bound := (List.getElem?_eq_some_iff.1 next).1
  refine ⟨inv.installed, inv.packets, ?_, ?_, ?_, inv.once⟩
  · simp only [invoked, List.length_append, List.length_singleton]
    omega
  · intro i entry hi
    rcases Ledger.getElem?_concat_eq_some.1 hi with before | ⟨rfl, rfl⟩
    · exact inv.kept i entry before
    · exact ⟨call, next, serves⟩
  · intro a ha
    obtain ⟨lt, plain⟩ := inv.answered a ha
    refine ⟨?_, plain⟩
    simp only [invoked, List.length_append]
    omega

/-- Dispatching the next request keeps the invariant, whatever the responder answers. -/
theorem dispatch {policy : ServerPolicy}
    (allowed : ∀ proto own,
      Guarded.Allowed Answer.Allowed Answer.step (proto, plenty, own) (policy proto own))
    {call : Call} (next : calls[own.requests.length]? = some call)
    (registered : ∃ responder, ampGetResponder proto.responders call.command = some responder)
    {box : AmpBox} (wf : box.WF) (map : box.toMap = call.request own.requests.length) :
    ∃ r, libraryDispatch Server.write (Server.user policy) plenty (some box) (proto, own) = .ok r ∧
      r.ret = 0 ∧ r.mem = plenty ∧ r.own.1 = proto ∧ Server.Inv calls proto r.own.2 ∧
      r.own.2.requests.length = own.requests.length + 1 ∧ own.Grows r.own.2 := by
  obtain ⟨responder, found⟩ := registered
  have command : box.toMap.lookup Key.command = some call.command.bytes := by
    rw [map, Call.request, Finmap.lookup_insert_of_ne _ (by decide), Finmap.lookup_insert]
  have ask : box.toMap.lookup Key.ask = some (askBytes (nthKey own.requests.length)) := by
    rw [map, Call.request, Finmap.lookup_insert]
  have run := process_command Server.write proto wf (some box) own command
  rw [CString.ofBytes_bytes, found, ask] at run
  have serves : Serves proto call own.requests.length responder
      ⟨⟨call.command.bytes⟩, some ⟨askBytes (nthKey own.requests.length)⟩, box⟩ :=
    ⟨found, rfl, rfl, map⟩
  obtain ⟨own', acts, inv', same, grows⟩ := (inv.keep next serves).acts (allowed _ _)
  simp only [libraryDispatch, run, Option.map_some, Server.user, acts]
  refine ⟨_, rfl, rfl, rfl, rfl, inv', ?_, grows.answers, grows.sent⟩
  rw [same, invoked, List.length_append, List.length_singleton]

end Server.Inv

end LibAmp
