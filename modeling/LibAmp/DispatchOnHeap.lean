import LibAmp.ParserOnHeap
import LibAmp.SingleOwner

/-!
# Dispatching on the heap (`_amp_process_full_packet`)

A box that was parsed becomes a request, a response or an error, which is handed to user code or
freed. As on values, the function stops where user code is to run.

## Main results

* `ampSendUnhandledCommandError_spec` — the error box and the text for it are freed again.
* `ampProcessFullPacket_spec` — dispatching on the heap is dispatching on values.
-/

namespace LibAmp.OnHeap

open Heap Linked Separation Assertion

variable {U : Type}

/-! ## Unhandled commands -/

/-- The `error:` label of `_amp_send_unhandled_command_error`. -/
def unhandledDone (box buf : Ptr) (ret : Int) (a : BlockAllocator) (app : Application U Ptr) :
    Program (Int × BlockAllocator × Application U Ptr) := do
  ampFreeBox box
  free buf
  return (ret, a, app)

/-- `if ((ret = amp_put_bytes(box, key, bytes, n)) != 0) goto error;`. -/
def putOrGiveUp (a : BlockAllocator) (box buf : Ptr) (key : CString) (bytes : List UInt8) (n : Int)
    (app : Application U Ptr)
    (k : BlockAllocator → Program (Int × BlockAllocator × Application U Ptr)) :
    Program (Int × BlockAllocator × Application U Ptr) := do
  let (ret, a) ← ampPutBuf a box key bytes n
  if ret ≠ 0 then unhandledDone box buf ret a app else k a

/-- `proto->write` is called without the check of `_amp_do_write`. -/
def writeUnchecked (handler : WriteHandler U) (proto buf : Ptr) (app : Application U Ptr) :
    Program (Int × Application U Ptr) := do
  let p ← readAs viewProto proto
  match p.write with
  | .uninitialised => fail .undefined
  | .null => fail .null
  | .installed func arg => callWriteHandler handler func arg buf app

/-- The chunks are `req->command` and `req->ask_key`. -/
def ampSendUnhandledCommandError (handler : WriteHandler U) (a : BlockAllocator)
    (proto command askKey : Ptr) (app : Application U Ptr) :
    Program (Int × BlockAllocator × Application U Ptr) := do
  let (box, a) ← ampNewBox a .errorBox
  if box = 0 then return (enomem, a, app)
  else
    let ask ← readAs viewChunk askKey
    putOrGiveUp a box 0 Key.error ask.value ask.size app fun a =>
    putOrGiveUp a box 0 Key.errorCode errorUnhandled.bytes (strlen errorUnhandled) app fun a => do
    let (buf, a) ← alloc a .description .raw
    if buf = 0 then unhandledDone box 0 enomem a app
    else
      let cmd ← readAs viewChunk command
      let text := unhandledPrefix ++ cmd.value ++ unhandledSuffix
      write buf (.bytes text)
      putOrGiveUp a box buf Key.errorDescr text text.length app fun a => do
      let (ret, a, app) ← serializeAndSend (writeUnchecked handler proto) a box app
      unhandledDone box buf ret a app

section Unhandled

variable {q : Ptr} {p : ProtoStruct} {app : Application U Ptr} {own : Application U Object}
  {handler : WriteHandler U} {proto : Dispatcher}

theorem writeUnchecked_spec (same : p.write = proto.write) {buf : Ptr} {bytes : List UInt8}
    {v : Int × Application U Object}
    (run : (match proto.write with
      | .uninitialised => .error .uninitialised
      | .null => .error .nullDereference
      | .installed func arg => .ok (keeping handler func arg bytes own) :
        Except LibAmp.Fault (Int × Application U Object)) = .ok v) :
    Spec (ownsBytes buf bytes * (cell q (.proto p) * applicationAt app own))
      (writeUnchecked handler q buf app) fun r =>
        fact (r.1 = v.1) * (cell q (.proto p) * applicationAt r.2 v.2) := by
  refine Spec.look (Returns.readAs viewProto ((dvd_mul_right _ _).mul_left _) rfl) ?_
  rw [same]
  cases slot : proto.write with
  | uninitialised => simp [slot] at run
  | null => simp [slot] at run
  | installed func arg =>
    simp only [slot, Except.ok.injEq] at run
    obtain rfl := run
    refine Spec.finish (callWriteHandler_spec func arg) (F := cell q (.proto p)) (by ac_rfl)
      fun r => le_of_eq ?_
    ac_rfl

/-- Whatever comes back, the error box and the text are freed. -/
theorem unhandledDone_spec {box buf : Ptr} (boxV : Option AmpBox) (text : Option (List UInt8))
    {P : Assertion Block} {w : Written (Application U Object)} {ret : Int} {a : BlockAllocator}
    (code : ret = w.ret) (mem : a.serves = w.mem) :
    Spec (nullable ownsBox box boxV * (nullable ownsBytes buf text *
        (P * applicationAt app w.own)))
      (unhandledDone box buf ret a app) fun r =>
        fact (r.1 = w.ret ∧ r.2.1.serves = w.mem) * (P * applicationAt r.2.2 w.own) := by
  refine Spec.step freeBoxOrNull_spec rfl fun _ => ?_
  rw [one_mul]
  have freed : Spec (nullable ownsBytes buf text) (free buf) fun _ => 1 := by
    cases text with
    | none =>
      rw [nullable, ← mul_one (fact _)]
      refine Spec.of_fact ?_
      rintro rfl
      exact Spec.ret (fun _ => 1) ()
    | some text => exact Spec.free buf (Block.bytes text)
  refine Spec.step freed rfl fun _ => ?_
  rw [one_mul]
  exact Spec.done _ (le_fact_mul ⟨code, mem⟩ le_rfl)

/-- One more key for the error box, after which the function gives up or goes on. -/
theorem putOrGiveUp_spec {box buf : Ptr} {boxV : Option AmpBox} (text : Option (List UInt8))
    {P : Assertion Block} {w : Written (Application U Object)} {key : CString}
    {bytes : List UInt8} {n : Int} {r : PutResult} (a : BlockAllocator)
    {k : BlockAllocator → Program (Int × BlockAllocator × Application U Ptr)}
    (put : LibAmp.ampPutBuf a.serves boxV key bytes n = .ok r)
    (failed : r.ret ≠ 0 → w = ⟨r.ret, r.mem, own⟩)
    (next : r.ret = 0 → ∀ a', a'.serves = r.mem →
      Spec (nullable ownsBox box r.box *
          (nullable ownsBytes buf text * (P * applicationAt app own)))
        (k a') fun r =>
          fact (r.1 = w.ret ∧ r.2.1.serves = w.mem) * (P * applicationAt r.2.2 w.own)) :
    Spec (nullable ownsBox box boxV * (nullable ownsBytes buf text * (P * applicationAt app own)))
      (putOrGiveUp a box buf key bytes n app k)
      fun r => fact (r.1 = w.ret ∧ r.2.1.serves = w.mem) * (P * applicationAt r.2.2 w.own) := by
  refine Spec.step (putBuf_spec a put) rfl fun s => ?_
  rw [mul_assoc]
  refine Spec.of_fact ?_
  rintro ⟨ret, mem⟩
  by_cases bad : r.ret ≠ 0
  · obtain rfl := failed bad
    exact Spec.pos (ret ▸ bad) (unhandledDone_spec (w := ⟨r.ret, r.mem, own⟩) _ _ ret mem)
  · exact Spec.neg (ret ▸ bad) (next (not_not.1 bad) s.2 mem)

theorem ampSendUnhandledCommandError_spec (same : p.write = proto.write) (a : BlockAllocator)
    {c k : Ptr} {command askKey : AmpChunk} {w : Written (Application U Object)}
    (run : LibAmp.ampSendUnhandledCommandError (keeping handler) proto a.serves command askKey own =
      .ok w) :
    Spec (cell q (.proto p) * (ownsChunk c command * ownsChunk k askKey) * applicationAt app own)
      (ampSendUnhandledCommandError handler a q c k app) fun r =>
        fact (r.1 = w.ret ∧ r.2.1.serves = w.mem) *
          (cell q (.proto p) * (ownsChunk c command * ownsChunk k askKey) *
            applicationAt r.2.2 w.own) := by
  obtain ⟨P, parts⟩ : ∃ P, P = cell q (.proto p) * (ownsChunk c command * ownsChunk k askKey) :=
    ⟨_, rfl⟩
  have hasCommand : ownsChunk c command ∣ P := by
    rw [parts]
    exact (dvd_mul_right _ _).mul_left _
  have hasAskKey : ownsChunk k askKey ∣ P := by
    rw [parts]
    exact (dvd_mul_left _ _).mul_left _
  have noText : nullable ownsBytes 0 none = (1 : Assertion Block) := fact_of rfl
  rw [← parts]
  unfold LibAmp.ampSendUnhandledCommandError at run
  refine ampNewBox_spec fun box a' null mem => ?_
  rcases made : LibAmp.ampNewBox .errorBox a.serves with ⟨_ | boxV, mem'⟩ <;>
    rw [made] at run null mem
  · obtain rfl := Except.ok.inj run
    obtain rfl := null.2 rfl
    refine Spec.pos rfl (Spec.done _ (le_fact_mul ⟨rfl, mem⟩ (le_of_eq ?_)))
    rw [nullable, fact_of rfl, one_mul]
  refine Spec.neg (fun h => by simpa using null.1 h) ?_
  obtain rfl : mem' = a'.serves := mem.symm
  dsimp only at run
  refine Spec.look (Returns.readAs viewChunk ((hasAskKey.mul_right _).mul_left _) rfl) ?_
  rw [← one_mul (P * _), ← noText]
  split at run
  · cases run
  next r₁ put₁ =>
  refine putOrGiveUp_spec _ a' put₁ (fun bad => ?_) fun fine a₁ mem₁ => ?_
  · rw [if_pos bad] at run
    exact (Except.ok.inj run).symm
  rw [if_neg (not_not.2 fine), ← mem₁] at run
  split at run
  · cases run
  next r₂ put₂ =>
  refine putOrGiveUp_spec _ a₁ put₂ (fun bad => ?_) fun fine a₂ mem₂ => ?_
  · rw [if_pos bad] at run
    exact (Except.ok.inj run).symm
  rw [if_neg (not_not.2 fine), ← mem₂] at run
  refine Spec.alloc (fun served buf nonNull => Spec.neg nonNull ?_) fun refused => Spec.pos rfl ?_
  swap
  · rw [malloc, refused] at run
    obtain rfl := Except.ok.inj run
    exact unhandledDone_spec (w := ⟨enomem, (a₂.drop 1).serves, own⟩) _ _ rfl rfl
  rw [malloc, served] at run
  rw [noText, one_mul]
  refine Spec.look (Returns.readAs viewChunk
    (((hasCommand.mul_right _).mul_left _).mul_left _) rfl) ?_
  refine Spec.step (Spec.write buf _ _) rfl fun _ => ?_
  obtain ⟨text, described⟩ : ∃ text, text = unhandledPrefix ++ command.value ++ unhandledSuffix :=
    ⟨_, rfl⟩
  rw [← described] at run ⊢
  refine Spec.rearrange (mul_left_comm _ _ _) ?_
  dsimp only at run
  split at run
  · cases run
  next r₃ put₃ =>
  refine putOrGiveUp_spec (some text) (a₂.drop 1) put₃ (fun bad => ?_)
    fun fine a₃ mem₃ => ?_
  · rw [if_pos bad] at run
    exact (Except.ok.inj run).symm
  rw [if_neg (not_not.2 fine), ← mem₃] at run
  split at run
  · cases run
  next filled present =>
  rw [present, nullable]
  refine Spec.step (serializeAndSend_spec (P := P) (fun packet bytes v sent => ?_) a₃ run)
    (F := nullable ownsBytes buf (some text)) (by ac_rfl) fun r => ?_
  · rw [parts]
    refine Spec.finish (writeUnchecked_spec same sent)
      (F := ownsChunk c command * ownsChunk k askKey) (by ac_rfl) fun r => le_of_eq ?_
    ac_rfl
  · rw [mul_assoc]
    refine Spec.of_fact ?_
    rintro ⟨ret, mem⟩
    refine Spec.rearrange ?_ (unhandledDone_spec (some filled) (some text) ret mem)
    rw [nullable, nullable]
    ac_rfl

end Unhandled

/-! ## Dispatching a box -/

/-- A call of user code, with the pointers it is given. The callback is freed after it. -/
inductive Invocation where
  | responder (func arg : Nat) (request : Ptr)
  | callback (callback result : Ptr)

/-- Where a function has got to. -/
inductive Flow where
  | ret (code : Int)
  | invoke (invocation : Invocation)

/-- `release` is what the source calls where the result does not get to a callback. -/
def completeCall (a : BlockAllocator) (proto : Ptr) (askKey : Int32) (release : Program Unit)
    (reason : ResultReason) (response error : Ptr) (unknown : Int) :
    Program (Flow × BlockAllocator) := do
  let p ← readAs viewProto proto
  let cb ← ampPopCallback p.outstandingRequests askKey
  if cb = 0 then
    release
    return (.ret unknown, a)
  else
    match ← ampNewResult a reason response error with
    | (.error err, a) =>
      release
      ampFreeCallback cb
      return (.ret err, a)
    | (.ok result, a) => return (.invoke (.callback cb result), a)

/-- `response->answer_key`. -/
def responseKey (response : Ptr) : Program UInt32 := do
  let (answerKey, _) ← readAs viewResponse response
  return answerKey

/-- `error->answer_key`. -/
def errorKey (error : Ptr) : Program Int32 := do
  let (answerKey, _, _) ← readAs viewError error
  return answerKey

/-- `proto->box = NULL`. -/
def forgetBox (proto : Ptr) : Program Unit := do
  let p ← readAs viewProto proto
  write proto (.proto { p with box := 0 })

/-- The branch of `_amp_process_full_packet` for a request, once there is one. -/
def processRequest (handler : WriteHandler U) (a : BlockAllocator) (proto request : Ptr)
    (app : Application U Ptr) : Program (Flow × BlockAllocator × Application U Ptr) := do
  let p ← readAs viewProto proto
  let (command, askKey, _) ← readAs viewRequest request
  let cmd ← readAs viewChunk command
  match ← findResponder p.responders cmd.cstring with
  | some (func, arg) => return (.invoke (.responder func arg request), a, app)
  | none =>
    if askKey = 0 then
      ampFreeRequest request
      return (.ret 0, a, app)
    else
      let (ret, a, app) ← ampSendUnhandledCommandError handler a proto command askKey app
      ampFreeRequest request
      return (.ret ret, a, app)

def ampProcessFullPacket (handler : WriteHandler U) (a : BlockAllocator) (proto box : Ptr)
    (app : Application U Ptr) : Program (Flow × BlockAllocator × Application U Ptr) := do
  let keys ← ampNumKeys box
  if keys = 0 then return (.ret ampBoxEmpty, a, app)
  else
    let isRequest ← ampHasKey box Key.command
    if isRequest ≠ 0 then
      match ← ampNewRequestFromBox a box with
      | (.error err, a) => return (.ret err, a, app)
      | (.ok request, a) =>
        forgetBox proto
        processRequest handler a proto request app
    else
      let isResponse ← ampHasKey box Key.answer
      if isResponse ≠ 0 then
        match ← ampNewResponseFromBox a box with
        | (.error err, a) => return (.ret err, a, app)
        | (.ok response, a) =>
          forgetBox proto
          let answerKey ← responseKey response
          let (flow, a) ← completeCall a proto answerKey.toInt32 (ampFreeResponse response)
            .success response 0 0
          return (flow, a, app)
      else
        let isError ← ampHasKey box Key.error
        if isError ≠ 0 then
          match ← ampNewErrorFromBox a box with
          | (.error err, a) => return (.ret err, a, app)
          | (.ok error, a) =>
            forgetBox proto
            let answerKey ← errorKey error
            let (flow, a) ← completeCall a proto answerKey (ampFreeError error) .error 0 error 0
            return (flow, a, app)
        else return (.ret ampReqKeyMissing, a, app)

/-- `proto->dispatch_box(proto, proto->box)`. -/
def dispatchBox (handler : WriteHandler U) (a : BlockAllocator) (proto : Ptr)
    (app : Application U Ptr) : Program (Flow × BlockAllocator × Application U Ptr) := do
  let p ← readAs viewProto proto
  ampProcessFullPacket handler a proto p.box app

/-! ## What is handed to user code -/

def ownsInvocation : Invocation → LibAmp.Invocation → Assertion Block
  | .responder func arg request, .responder r v =>
    fact (func = r.func ∧ arg = r.arg) * ownsRequest request v
  | .callback callback result, .callback cb v => ownsCallback callback cb * ownsResult result v
  | _, _ => fact False

def flowAt : Flow → LibAmp.Flow → Assertion Block
  | .ret code, .ret code' => fact (code = code')
  | .invoke invocation, .invoke v => ownsInvocation invocation v
  | _, _ => fact False

/-- The proto after a function of the dispatcher. -/
def Progressed.toProto {σ : Type} (v : Progressed σ) (proto : AmpProto) : AmpProto where
  toParser := { proto.toParser with box := v.box }
  toDispatcher := v.proto

/-- What is left of a box and what is handed on. -/
def dispatched (texts : List (Ptr × CString)) (q : Ptr) (proto : AmpProto) (gone : Forgotten)
    (v : Progressed (Application U Object)) (r : Flow × BlockAllocator × Application U Ptr) :
    Assertion Block :=
  fact (r.2.1.serves = v.mem) * (flowAt r.1 v.flow *
    (protoAt texts q (Progressed.toProto v proto) gone *
      (textsAt texts * applicationAt r.2.2 v.own)))

theorem responseKey_returns {q : Ptr} {r : AmpResponse} {P : Assertion Block}
    (part : ownsResponse q r ∣ P) : Returns P (responseKey q) r.answerKey := by
  refine Returns.of_dvd (Returns.of_iSup fun args => ?_) part
  exact (Returns.readAs viewResponse (dvd_mul_right _ _) rfl).bind (Returns.ret _ _)

theorem errorKey_returns {q : Ptr} {e : RemoteError} {P : Assertion Block}
    (part : ownsError q e ∣ P) : Returns P (errorKey q) e.answerKey := by
  refine Returns.of_dvd (Returns.of_iSup fun code => Returns.of_iSup fun descr => ?_) part
  exact (Returns.readAs viewError (dvd_mul_right _ _) rfl).bind (Returns.ret _ _)

theorem payload_success (response : Ptr) (r : AmpResponse) :
    payload response 0 (.success r) = ownsResponse response r := by
  have none : nullable ownsError 0 none = (1 : Assertion Block) := fact_of rfl
  exact (congrArg (ownsResponse response r * ·) none).trans (mul_one _)

theorem payload_error (error : Ptr) (e : RemoteError) :
    payload 0 error (.error e) = ownsError error e := by
  have none : nullable ownsResponse 0 none = (1 : Assertion Block) := fact_of rfl
  exact (congrArg (· * ownsError error e) none).trans (one_mul _)

section Dispatching

variable {texts : List (Ptr × CString)} {q : Ptr} {proto : AmpProto} {gone : Forgotten}
  {app : Application U Ptr} {own : Application U Object} {handler : WriteHandler U}

/-- Completing a call leaves the box and the state of the owner alone. -/
theorem completeCall_kept (d : Dispatcher) (box : Option AmpBox) (mem : Mem) (own : U)
    (askKey : Int32) (result : AmpResult) (unknown : Int) :
    (LibAmp.completeCall d box mem own askKey result unknown).box = box ∧
      (LibAmp.completeCall d box mem own askKey result unknown).own = own := by
  unfold LibAmp.completeCall
  rcases LibAmp.ampPopCallback d.outstandingRequests askKey with ⟨_ | cb, map⟩
  · exact ⟨rfl, rfl⟩
  · dsimp only
    rcases malloc .result mem with ⟨_ | _, mem'⟩ <;> exact ⟨rfl, rfl⟩

variable (proto) in
/-- The callback of the key is handed the result, or what was in the result is freed. -/
theorem completeCall_spec (a : BlockAllocator) (askKey : Int32) {release : Program Unit}
    {result : AmpResult} {response error : Ptr} (unknown : Int) {box : Option AmpBox}
    {v : Progressed (Application U Object)}
    (run : LibAmp.completeCall proto.toDispatcher box a.serves own askKey result unknown = v)
    (releases : Spec (payload response error result) release fun _ => 1) :
    Spec (protoAt texts q proto gone * payload response error result)
      (completeCall a q askKey release (reasonOf result) response error unknown) fun r =>
        fact (r.2.serves = v.mem) *
          (flowAt r.1 v.flow * protoAt texts q { proto with toDispatcher := v.proto } gone) := by
  refine Spec.of_protoAt fun p holds => ?_
  refine Spec.look (Returns.readAs viewProto (dvd_mul_right _ _) rfl) ?_
  obtain ⟨others, parts⟩ : ∃ others, others = respondersAt texts p.responders proto.responders
      gone.responders * scattered ownsBox gone.boxes := ⟨_, rfl⟩
  have folded (map : CallbackMap) : cell q (.proto p) * (nullable ownsBox p.box proto.box *
      (callbacksAt p.outstandingRequests map gone.callbacks * others)) ≤
      protoAt texts q { proto with toDispatcher := { proto.toDispatcher with
        outstandingRequests := map } } gone := by
    have holds' : p.Holds { proto with toDispatcher := { proto.toDispatcher with
        outstandingRequests := map } } := ⟨holds.parser, holds.lastAskKey, holds.write⟩
    refine le_trans (le_of_eq ?_) (le_protoAt holds')
    rw [partsAt, parts]
  refine Spec.step (ampPopCallback_spec p.outstandingRequests proto.outstandingRequests
    gone.callbacks askKey) (F := payload response error result *
    (cell q (.proto p) * (nullable ownsBox p.box proto.box * others))) ?_ fun cb => ?_
  · rw [partsAt, parts]
    ac_rfl
  subst run
  unfold LibAmp.completeCall
  rcases LibAmp.ampPopCallback proto.outstandingRequests askKey with ⟨_ | cbV, map⟩
  · rw [nullable, mul_assoc, mul_left_comm]
    refine Spec.of_fact fun null => Spec.pos null ?_
    refine Spec.step releases (mul_left_comm _ _ _) fun _ => ?_
    rw [one_mul]
    refine Spec.done _ (le_fact_mul rfl (le_fact_mul rfl (le_trans (le_of_eq ?_) (folded map))))
    ac_rfl
  · rw [nullable]
    refine Spec.known (((nonNull_cell cb _).mul_left _).mul_right _) fun nonNull =>
      Spec.neg nonNull ?_
    refine Spec.settle (ampNewResult_spec a result response error)
      (F := ownsCallback cb cbV * (callbacksAt p.outstandingRequests map gone.callbacks *
        (cell q (.proto p) * (nullable ownsBox p.box proto.box * others)))) (by ac_rfl)
      (fun err a' v => ?_) fun r rV a' v => ?_
    · rw [newResult] at v
      dsimp only
      rcases served : malloc .result a.serves with ⟨_ | _, mem⟩ <;> rw [served] at v
      · obtain ⟨⟩ := v
        refine Spec.step releases rfl fun _ => ?_
        rw [one_mul]
        refine Spec.step (Spec.free cb (Block.callback cbV)) rfl fun _ => ?_
        rw [one_mul]
        refine Spec.done _ (le_fact_mul rfl (le_fact_mul rfl
          (le_trans (le_of_eq ?_) (folded map))))
        ac_rfl
      · cases v
    · rw [newResult] at v
      dsimp only
      rcases served : malloc .result a.serves with ⟨_ | _, mem⟩ <;> rw [served] at v
      · cases v
      · obtain ⟨⟩ := v
        refine Spec.done _ (le_fact_mul rfl (le_trans (le_of_eq ?_) (mul_mono le_rfl (folded map))))
        rw [flowAt, ownsInvocation]
        ac_rfl

/-- The box of a proto that has been taken over. -/
theorem forgetBox_spec {p : ProtoStruct} (holds : p.Holds proto) :
    Spec (cell q (.proto p) * (callbacksAt p.outstandingRequests proto.outstandingRequests
        gone.callbacks * (respondersAt texts p.responders proto.responders gone.responders *
          scattered ownsBox gone.boxes))) (forgetBox q) fun _ =>
      protoAt texts q { proto with box := none } gone := by
  refine Spec.look (Returns.readAs viewProto (dvd_mul_right _ _) rfl) ?_
  refine ((Spec.write q (Block.proto p) _).frame _).post fun _ => ?_
  have holds' : ProtoStruct.Holds { p with box := 0 } { proto with box := none } :=
    ⟨congrArg (fun fields : Parser => { fields with box := none }) holds.parser,
      holds.lastAskKey, holds.write⟩
  refine le_trans (le_of_eq ?_) (le_protoAt holds')
  rw [partsAt, nullable, fact_of rfl, one_mul]

theorem responders_dvd (texts : List (Ptr × CString)) (p : ProtoStruct) (proto : AmpProto)
    (gone : Forgotten) :
    respondersAt texts p.responders proto.responders gone.responders ∣ partsAt texts p proto gone :=
  ((dvd_mul_right _ _).mul_left _).mul_left _

/-- A request goes to its responder, or it is freed. -/
theorem processRequest_spec (a : BlockAllocator) {r : Ptr} {request : AmpRequest}
    {v : Progressed (Application U Object)} (noBox : proto.box = none)
    (run : (match LibAmp.ampGetResponder proto.responders request.command.cstring with
      | some responder =>
        .ok ⟨.invoke (.responder responder request), proto.toDispatcher, none, a.serves, own⟩
      | none =>
        match request.askKey with
        | none => .ok ⟨.ret 0, proto.toDispatcher, none, a.serves, own⟩
        | some askKey =>
          match LibAmp.ampSendUnhandledCommandError (keeping handler) proto.toDispatcher a.serves
              request.command askKey own with
          | .error e => .error e
          | .ok w => .ok ⟨.ret w.ret, proto.toDispatcher, none, w.mem, w.own⟩ :
        Except LibAmp.Fault (Progressed (Application U Object))) = .ok v) :
    Spec (protoAt texts q proto gone *
        (ownsRequest r request * (textsAt texts * applicationAt app own)))
      (processRequest handler a q r app) (dispatched texts q proto gone v) := by
  have same : { proto with box := none } = proto := by rw [← noBox]
  refine Spec.of_protoAt fun p holds => ?_
  refine Spec.look (Returns.readAs viewProto (dvd_mul_right _ _) rfl) ?_
  obtain ⟨P, whole⟩ : ∃ P, P = cell q (.proto p) * partsAt texts p proto gone := ⟨_, rfl⟩
  have kept : P ≤ protoAt texts q proto gone := whole ▸ le_protoAt holds
  have responders : respondersAt texts p.responders proto.responders gone.responders ∣ P :=
    whole ▸ (responders_dvd texts p proto gone).mul_left _
  refine Spec.rearrange
    (show _ = ownsRequest r request * (P * (textsAt texts * applicationAt app own)) from ?_) ?_
  · rw [whole]
    ac_rfl
  refine Spec.of_ownsRequest fun c k args => ?_
  have folded := le_ownsRequest r c k args request
  refine Spec.look (Returns.readAs viewRequest ((dvd_mul_right _ _).mul_right _) rfl) ?_
  refine Spec.look (Returns.readAs viewChunk (((dvd_mul_right _ _).mul_left _).mul_right _) rfl) ?_
  have looked := findResponder_returns texts p.responders proto.responders gone.responders
    request.command.cstring
  refine Spec.look (looked.of_dvd ((mul_dvd_mul responders (dvd_mul_right _ _)).mul_left _)) ?_
  rcases found : LibAmp.ampGetResponder proto.responders request.command.cstring with
    _ | responder <;> rw [found] at run
  · dsimp only [Option.map_none]
    cases asked : request.askKey with
    | none =>
      simp only [asked, Except.ok.injEq] at run
      obtain rfl := run
      refine Spec.rearrange (show _ = nullable ownsChunk k none *
        (cell r (.request c k args) * (ownsChunk c request.command * ownsBox args request.args) *
          (P * (textsAt texts * applicationAt app own))) by ac_rfl) ?_
      refine Spec.of_fact fun null => Spec.pos null ?_
      rw [asked, nullable, fact_of null, one_mul] at folded
      refine (Spec.step (ampFreeRequest_spec request) rfl fun _ => ?_).conseq
        (mul_mono folded le_rfl) fun _ => le_rfl
      rw [one_mul]
      refine Spec.done _ (le_fact_mul rfl (le_fact_mul rfl ?_))
      rw [Progressed.toProto, same]
      exact mul_mono kept le_rfl
    | some askKey =>
      simp only [asked] at run
      rw [asked] at folded
      refine Spec.known (((((nonNull_cell k (Block.chunk askKey)).mul_right _).mul_left _).mul_left
        _).mul_right _) fun nonNull => Spec.neg nonNull ?_
      cases sent : LibAmp.ampSendUnhandledCommandError (keeping handler) proto.toDispatcher
          a.serves request.command askKey own with
      | error e => simp [sent] at run
      | ok w =>
        simp only [sent, Except.ok.injEq] at run
        obtain rfl := run
        refine Spec.step (ampSendUnhandledCommandError_spec holds.write a sent)
          (F := cell r (.request c k args) * (ownsBox args request.args *
            (partsAt texts p proto gone * textsAt texts))) ?_ fun s => ?_
        · rw [whole, nullable]
          ac_rfl
        rw [mul_assoc]
        refine Spec.of_fact ?_
        rintro ⟨ret, mem⟩
        refine (Spec.step (ampFreeRequest_spec request) (F := P * (textsAt texts *
          applicationAt s.2.2 w.own)) rfl fun _ => ?_).conseq
            (le_trans (le_of_eq ?_) (mul_mono folded le_rfl)) fun _ => le_rfl
        · rw [one_mul]
          refine Spec.done _ (le_fact_mul mem (le_fact_mul ret ?_))
          rw [Progressed.toProto, same]
          exact mul_mono kept le_rfl
        · rw [whole, nullable]
          ac_rfl
  · obtain rfl := Except.ok.inj run
    refine Spec.done _ (le_fact_mul rfl ?_)
    rw [flowAt, ownsInvocation, fact_of ⟨rfl, rfl⟩, one_mul, Progressed.toProto, same]
    exact mul_mono folded (mul_mono kept le_rfl)

variable (proto) in
/-- A response or an error goes to its callback, or it is freed. -/
theorem completed_spec (a : BlockAllocator) (askKey : Int32) {release : Program Unit}
    {result : AmpResult} {response error : Ptr}
    (releases : Spec (payload response error result) release fun _ => 1) :
    Spec (protoAt texts q { proto with box := none } gone *
        (payload response error result * (textsAt texts * applicationAt app own)))
      (do
        let (flow, a) ← completeCall a q askKey release (reasonOf result) response error 0
        return (flow, a, app))
      (dispatched texts q proto gone
        (LibAmp.completeCall proto.toDispatcher none a.serves own askKey result 0)) := by
  obtain ⟨v, run⟩ : ∃ v, LibAmp.completeCall proto.toDispatcher none a.serves own askKey result 0 =
    v := ⟨_, rfl⟩
  obtain ⟨box, owner⟩ := completeCall_kept proto.toDispatcher none a.serves own askKey result 0
  rw [run] at box owner ⊢
  refine Spec.step (completeCall_spec { proto with box := none } a askKey 0 run releases)
    (mul_assoc _ _ _).symm fun r => ?_
  rw [mul_assoc]
  refine Spec.of_fact fun mem => ?_
  refine Spec.done _ (le_fact_mul mem (le_of_eq ?_))
  rw [Progressed.toProto, box, owner]
  ac_rfl

variable (texts q proto gone app) in
/-- Dispatching on the heap is dispatching on values. -/
theorem dispatchBox_spec (a : BlockAllocator) {b : AmpBox} {v : Progressed (Application U Object)}
    (held : proto.box = some b)
    (run : LibAmp.ampProcessFullPacket (keeping handler) proto.toDispatcher proto.box a.serves b
      own = .ok v) :
    Spec (protoAt texts q proto gone * (textsAt texts * applicationAt app own))
      (dispatchBox handler a q app) (dispatched texts q proto gone v) := by
  refine Spec.of_protoAt fun p holds => ?_
  refine Spec.look (Returns.readAs viewProto (dvd_mul_right _ _) rfl) ?_
  obtain ⟨R, rest⟩ : ∃ R, R = cell q (.proto p) *
      (callbacksAt p.outstandingRequests proto.outstandingRequests gone.callbacks *
        (respondersAt texts p.responders proto.responders gone.responders *
          scattered ownsBox gone.boxes)) := ⟨_, rfl⟩
  have kept : ownsBox p.box b * R ≤ protoAt texts q proto gone := by
    refine le_trans (le_of_eq ?_) (le_protoAt holds)
    rw [rest, partsAt, held, nullable]
    ac_rfl
  have forget : Spec R (forgetBox q) fun _ => protoAt texts q { proto with box := none } gone :=
    rest ▸ forgetBox_spec holds
  refine Spec.rearrange (show _ = ownsBox p.box b * (R * (textsAt texts * applicationAt app own))
    from ?_) ?_
  · rw [rest, partsAt, held, nullable]
    ac_rfl
  have returned (code : Int) (a : BlockAllocator) :
      Spec (ownsBox p.box b * (R * (textsAt texts * applicationAt app own)))
        (pure (.ret code, a, app)) (dispatched texts q proto gone
          ⟨.ret code, proto.toDispatcher, proto.box, a.serves, own⟩) := by
    refine Spec.done _ (le_fact_mul rfl (le_fact_mul rfl ?_))
    rw [← mul_assoc]
    exact mul_mono kept le_rfl
  unfold LibAmp.ampProcessFullPacket at run
  refine Spec.look (numKeys_returns (dvd_mul_right _ _)) ?_
  by_cases empty : LibAmp.ampNumKeys b = 0
  · rw [if_pos empty] at run
    obtain rfl := Except.ok.inj run
    exact Spec.pos empty (returned _ _)
  rw [if_neg empty] at run
  refine Spec.neg empty (Spec.look (hasKey_returns (dvd_mul_right _ _)) ?_)
  by_cases isRequest : LibAmp.ampHasKey b Key.command ≠ 0
  · rw [if_pos isRequest] at run
    refine Spec.pos isRequest (Spec.settle (ampNewRequestFromBox_spec a) rfl (fun err a' v => ?_)
      fun r request a' v => ?_)
    · rw [v] at run
      obtain rfl := Except.ok.inj run
      exact returned _ _
    · rw [v] at run
      refine Spec.step forget (mul_left_comm _ _ _) fun _ => ?_
      refine processRequest_spec a' rfl ?_
      rw [← run]
      dsimp only
      rcases LibAmp.ampGetResponder proto.responders request.command.cstring with _ | responder
      · rcases request.askKey with _ | askKey
        · rfl
        · dsimp only
          cases LibAmp.ampSendUnhandledCommandError (keeping handler) proto.toDispatcher a'.serves
            request.command askKey own <;> rfl
      · rfl
  rw [if_neg isRequest] at run
  refine Spec.neg isRequest (Spec.look (hasKey_returns (dvd_mul_right _ _)) ?_)
  by_cases isResponse : LibAmp.ampHasKey b Key.answer ≠ 0
  · rw [if_pos isResponse] at run
    refine Spec.pos isResponse (Spec.settle (ampNewResponseFromBox_spec a) rfl (fun err a' v => ?_)
      fun r response a' v => ?_)
    · rw [v] at run
      obtain rfl := Except.ok.inj run
      exact returned _ _
    · rw [v] at run
      obtain rfl := Except.ok.inj run
      refine Spec.step forget (mul_left_comm _ _ _) fun _ => ?_
      refine Spec.look (responseKey_returns ((dvd_mul_right _ _).mul_left _)) ?_
      rw [← payload_success]
      exact completed_spec proto a' _ (payload_success r response ▸ ampFreeResponse_spec response)
  rw [if_neg isResponse] at run
  refine Spec.neg isResponse (Spec.look (hasKey_returns (dvd_mul_right _ _)) ?_)
  by_cases isError : LibAmp.ampHasKey b Key.error ≠ 0
  · rw [if_pos isError] at run
    refine Spec.pos isError (Spec.settle (ampNewErrorFromBox_spec a) rfl (fun err a' v => ?_)
      fun r error a' v => ?_)
    · rw [v] at run
      obtain rfl := Except.ok.inj run
      exact returned _ _
    · rw [v] at run
      obtain rfl := Except.ok.inj run
      refine Spec.step forget (mul_left_comm _ _ _) fun _ => ?_
      refine Spec.look (errorKey_returns ((dvd_mul_right _ _).mul_left _)) ?_
      rw [← payload_error]
      exact completed_spec proto a' _ (payload_error r error ▸ ampFreeError_spec error)
  · rw [if_neg isError] at run
    obtain rfl := Except.ok.inj run
    exact Spec.neg isError (returned _ _)

end Dispatching

end LibAmp.OnHeap
