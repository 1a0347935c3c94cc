import LibAmp.DispatchOnHeap

/-!
# Calls on the heap (`_amp_call`, `amp_cancel`, `amp_respond`)

Making a call registers a callback, which is freed again if the call fails; what the callback map
held under the same key before is forgotten.

## Main results

* `ampCall_spec`, `ampCallNoAnswer_spec`, `ampCancel_spec`, `ampRespond_spec` — each does on the
  heap what it does on values.
-/

namespace LibAmp.OnHeap

open Heap Linked Separation Assertion

variable {U : Type}

/-! ## The functions -/

def ampPutUint (a : BlockAllocator) (box : Ptr) (key : CString) (value : UInt32) :
    Program (AmpError × BlockAllocator) :=
  let buf := snprintf uintBufLen (Decimal.render value.toNat)
  ampPutBuf a box key buf buf.length

/-- The key that was stored in `last_ask_key` is returned as an `int`. -/
def ampNextAskKey (proto : Ptr) : Program Int32 := do
  let p ← readAs viewProto proto
  write proto (.proto { p with lastAskKey := p.lastAskKey + 1 })
  return (p.lastAskKey + 1).toInt32

/-- `proto->last_ask_key`. -/
def lastAskKey (proto : Ptr) : Program UInt32 := do
  let p ← readAs viewProto proto
  return p.lastAskKey

/-- `_amp_put_callback(proto->outstanding_requests, ask_key, cb)`. -/
def registerCallback (a : BlockAllocator) (proto : Ptr) (askKey : Int32) (cb : Ptr) :
    Program (AmpError × BlockAllocator) := do
  let p ← readAs viewProto proto
  ampPutCallback a p.outstandingRequests askKey cb

/-- What `_amp_call` returns, and what it has stored in `*ask_key_ret`. -/
abbrev CallReturn (U : Type) := Int × Option UInt32 × BlockAllocator × Application U Ptr

/-- The `error:` label of `_amp_call`. -/
def callFailed (ret : Int) (askKey : Int32) (proto cb : Ptr) (askKeyRet : Option UInt32)
    (a : BlockAllocator) (app : Application U Ptr) : Program (CallReturn U) := do
  if cb = 0 then return (ret, askKeyRet, a, app)
  else
    let p ← readAs viewProto proto
    let _ ← ampPopCallback p.outstandingRequests askKey
    ampFreeCallback cb
    return (ret, askKeyRet, a, app)

/-- The end of `_amp_call`. -/
def callWrite (handler : WriteHandler U) (a : BlockAllocator) (proto cb args : Ptr)
    (askKey : Int32) (askKeyRet : Option UInt32) (app : Application U Ptr) :
    Program (CallReturn U) := do
  match ← ampSerializeBox a args with
  | (.error err, a) => callFailed err askKey proto cb askKeyRet a app
  | (.ok buf, a) =>
    let (ret, app) ← ampDoWrite handler proto buf app
    return (ret, askKeyRet, a, app)

/-- `_amp_call` with a callback, from `amp_next_ask_key` on. -/
def callWithKey (handler : WriteHandler U) (a : BlockAllocator) (proto cb args : Ptr)
    (app : Application U Ptr) : Program (CallReturn U) := do
  let askKey ← ampNextAskKey proto
  let askKeyRet := some askKey.toUInt32
  let (ret, a) ← registerCallback a proto askKey cb
  if ret ≠ 0 then callFailed ret askKey proto cb askKeyRet a app
  else
    let key ← lastAskKey proto
    let (ret, a) ← ampPutUint a args Key.ask key
    if ret ≠ 0 then callFailed ret askKey proto cb askKeyRet a app
    else callWrite handler a proto cb args askKey askKeyRet app

def ampCall (handler : WriteHandler U) (a : BlockAllocator) (proto args : Ptr) (command : CString)
    (callback callbackArg : Nat) (app : Application U Ptr) : Program (CallReturn U) := do
  let (ret, a) ← ampPutBuf a args Key.command command.bytes (strlen command)
  if ret ≠ 0 then callFailed ret (-1) proto 0 none a app
  else
    let (cb, a) ← ampNewCallback a callback callbackArg
    if cb = 0 then callFailed enomem (-1) proto 0 none a app
    else callWithKey handler a proto cb args app

def ampCallNoAnswer (handler : WriteHandler U) (a : BlockAllocator) (proto args : Ptr)
    (command : CString) (app : Application U Ptr) : Program (CallReturn U) := do
  let (ret, a) ← ampPutBuf a args Key.command command.bytes (strlen command)
  if ret ≠ 0 then callFailed ret (-1) proto 0 none a app
  else
    let _ ← ampDelKey args Key.ask
    callWrite handler a proto 0 args (-1) none app

/-- The result of `amp_cancel` carries nothing that could have to be freed. -/
def ampCancel (a : BlockAllocator) (proto : Ptr) (askKey : Int32) :
    Program (Flow × BlockAllocator) :=
  completeCall a proto askKey (pure ()) .cancel 0 0 ampNoSuchAskKey

def ampRespond (handler : WriteHandler U) (a : BlockAllocator) (proto request args : Ptr)
    (app : Application U Ptr) : Program (Int × BlockAllocator × Application U Ptr) := do
  let (_, askKey, _) ← readAs viewRequest request
  let ask ← readAs viewChunk askKey
  let (ret, a) ← ampPutBuf a args Key.answer ask.value ask.size
  if ret ≠ 0 then return (ret, a, app)
  else serializeAndSend (ampDoWrite handler proto) a args app

/-! ## Giving up -/

/-- What an application has passed in, and what it has itself. -/
def callerAt (args : Ptr) (argsV : Option AmpBox) (app : Application U Ptr)
    (own : Application U Object) : Assertion Block :=
  nullable ownsBox args argsV * applicationAt app own

/-- The callback that a call displaces from the map. -/
def displaced (proto : Dispatcher) (askKey : Option UInt32) : List Callback :=
  askKey.toList.flatMap fun key => (LibAmp.tableGet proto.outstandingRequests key).toList

/-- What is left of a call. -/
def called (texts : List (Ptr × CString)) (q args : Ptr) (proto : AmpProto) (gone : Forgotten)
    (v : Called (Application U Object)) (r : CallReturn U) : Assertion Block :=
  fact (r.1 = v.ret ∧ r.2.1 = v.askKey ∧ r.2.2.1.serves = v.mem) *
    (protoAt texts q { proto with toDispatcher := v.proto } gone *
      callerAt args v.args r.2.2.2 v.own)

/-- A proto with the callback of a key at `cb`. -/
def protoHolding (texts : List (Ptr × CString)) (q : Ptr) (proto : AmpProto) (gone : Forgotten)
    (key : UInt32) (cb : Ptr) : Assertion Block :=
  ⨆ p : ProtoStruct, fact (p.Holds proto) * (cell q (.proto p) *
    (nullable ownsBox p.box proto.box *
      (callbackHeld p.outstandingRequests proto.outstandingRequests gone.callbacks key cb *
        (respondersAt texts p.responders proto.responders gone.responders *
          scattered ownsBox gone.boxes))))

section Calls

variable {texts : List (Ptr × CString)} {q args cb : Ptr} {proto : AmpProto} {gone : Forgotten}
  {app : Application U Ptr} {own : Application U Object} {handler : WriteHandler U}
  {argsV : Option AmpBox}

theorem protoHolding_le {key : UInt32} :
    protoHolding texts q proto gone key cb ≤ protoAt texts q proto gone :=
  iSup_mono fun _ => mul_mono le_rfl (mul_mono le_rfl (mul_mono le_rfl
    (mul_mono callbackHeld_le le_rfl)))

theorem Spec.of_protoHolding {α : Type} {key : UInt32} {F : Assertion Block} {c : Program α}
    {Q : α → Assertion Block}
    (spec : ∀ p : ProtoStruct, p.Holds proto → Spec (cell q (.proto p) *
      (nullable ownsBox p.box proto.box *
        (callbackHeld p.outstandingRequests proto.outstandingRequests gone.callbacks key cb *
          (respondersAt texts p.responders proto.responders gone.responders *
            scattered ownsBox gone.boxes))) * F) c Q) :
    Spec (protoHolding texts q proto gone key cb * F) c Q := by
  simp only [protoHolding, iSup_mul]
  refine Spec.of_iSup fun p => ?_
  rw [mul_assoc (fact _)]
  exact Spec.of_fact fun holds => spec p holds

theorem freeCallbackOrNull_spec (cbV : Option Callback) :
    Spec (nullable ownsCallback q cbV) (ampFreeCallback q) fun _ => 1 := by
  cases cbV with
  | none =>
    rw [nullable, ← mul_one (fact _)]
    refine Spec.of_fact ?_
    rintro rfl
    exact Spec.ret (fun _ => 1) ()
  | some cbV => exact Spec.free q (Block.callback cbV)

/-- The callback that was registered is taken out again and freed. -/
theorem callFailed_spec (a : BlockAllocator) (ret : Int) (askKey : Int32) (cbV : Callback)
    (askKeyRet : Option UInt32) (nonNull : cb ≠ 0) :
    Spec (protoHolding texts q proto gone askKey.toUInt32 cb * callerAt args argsV app own)
      (callFailed ret askKey q cb askKeyRet a app)
      (called texts q args proto gone
        (LibAmp.callFailed ret askKey (some cbV) proto.toDispatcher argsV a.serves own
          askKeyRet)) := by
  refine Spec.neg nonNull (Spec.of_protoHolding fun p holds => ?_)
  refine Spec.look (Returns.readAs viewProto ((dvd_mul_right _ _).mul_right _) rfl) ?_
  obtain ⟨F, others⟩ : ∃ F, F = cell q (.proto p) * (nullable ownsBox p.box proto.box *
      (respondersAt texts p.responders proto.responders gone.responders *
        scattered ownsBox gone.boxes)) * callerAt args argsV app own := ⟨_, rfl⟩
  refine Spec.step (popHeld_spec askKey) (F := F) (by rw [others]; ac_rfl) fun r => ?_
  rw [mul_assoc]
  refine Spec.of_fact fun _ => ?_
  rw [LibAmp.callFailed]
  obtain ⟨map, rest⟩ : ∃ map, map = (LibAmp.ampPopCallback proto.outstandingRequests askKey).2 :=
    ⟨_, rfl⟩
  rw [← rest]
  refine Spec.step (freeCallbackOrNull_spec _)
    (F := callbacksAt p.outstandingRequests map gone.callbacks * F) (by ac_rfl) fun _ => ?_
  rw [one_mul]
  have holds' : p.Holds { proto with toDispatcher := { proto.toDispatcher with
      outstandingRequests := map } } := ⟨holds.parser, holds.lastAskKey, holds.write⟩
  refine Spec.done _ (le_fact_mul ⟨rfl, rfl, rfl⟩ (le_trans (le_of_eq ?_)
    (mul_mono (le_protoAt holds') le_rfl)))
  rw [partsAt, others]
  dsimp only
  ac_rfl

variable (proto) in
/-- A callback that could not be registered is freed. -/
theorem callFailed_unregistered (a : BlockAllocator) (ret : Int) {askKey : Int32}
    (cbV cbV' : Callback) (askKeyRet : Option UInt32)
    (absent : LibAmp.ampPopCallback proto.outstandingRequests askKey =
      (none, proto.outstandingRequests)) :
    Spec (protoAt texts q proto gone * (ownsCallback cb cbV * callerAt args argsV app own))
      (callFailed ret askKey q cb askKeyRet a app)
      (called texts q args proto gone
        (LibAmp.callFailed ret askKey (some cbV') proto.toDispatcher argsV a.serves own
          askKeyRet)) := by
  refine Spec.known (((nonNull_cell cb (Block.callback cbV)).mul_right _).mul_left _) fun nonNull =>
    Spec.neg nonNull ?_
  refine Spec.of_protoAt fun p holds => ?_
  refine Spec.look (Returns.readAs viewProto (dvd_mul_right _ _) rfl) ?_
  obtain ⟨F, others⟩ : ∃ F, F = cell q (.proto p) * (nullable ownsBox p.box proto.box *
      (respondersAt texts p.responders proto.responders gone.responders *
        scattered ownsBox gone.boxes)) * callerAt args argsV app own := ⟨_, rfl⟩
  refine Spec.step (ampPopCallback_spec p.outstandingRequests proto.outstandingRequests
    gone.callbacks askKey) (F := ownsCallback cb cbV * F) ?_ fun r => ?_
  · rw [partsAt, others]
    ac_rfl
  rw [absent, nullable, LibAmp.callFailed, absent, mul_assoc, mul_left_comm]
  refine Spec.of_fact fun _ => ?_
  refine Spec.step (Spec.free cb (Block.callback cbV)) (mul_left_comm _ _ _) fun _ => ?_
  rw [one_mul]
  refine Spec.done _ (le_fact_mul ⟨rfl, rfl, rfl⟩ (le_trans (le_of_eq ?_)
    (mul_mono (le_protoAt holds) le_rfl)))
  rw [partsAt, others]
  ac_rfl

theorem ampNextAskKey_spec :
    Spec (protoAt texts q proto gone) (ampNextAskKey q) fun r =>
      fact (r = (LibAmp.ampNextAskKey proto.toDispatcher).1) *
        protoAt texts q { proto with
          toDispatcher := (LibAmp.ampNextAskKey proto.toDispatcher).2 } gone := by
  rw [← mul_one (protoAt texts q proto gone)]
  refine Spec.of_protoAt fun p holds => ?_
  rw [mul_one]
  refine Spec.look (Returns.readAs viewProto (dvd_mul_right _ _) rfl) ?_
  refine Spec.step (Spec.write q (Block.proto p) (.proto { p with
    lastAskKey := p.lastAskKey + 1 })) rfl fun _ => ?_
  have next : (LibAmp.ampNextAskKey proto.toDispatcher).2.lastAskKey = p.lastAskKey + 1 := by
    rw [holds.lastAskKey]
    rfl
  have holds' : ProtoStruct.Holds { p with lastAskKey := p.lastAskKey + 1 } { proto with
      toDispatcher := (LibAmp.ampNextAskKey proto.toDispatcher).2 } :=
    ⟨holds.parser, next.symm, holds.write⟩
  refine Spec.done _ (le_fact_mul ?_ (le_protoAt holds'))
  rw [holds.lastAskKey]
  rfl

variable (texts q cb proto gone) in
/-- Registering a callback: the one registered under the key before is forgotten. -/
theorem registerCallback_spec (cbV : Callback) (a : BlockAllocator) (askKey : Int32) :
    Spec (protoAt texts q proto gone * ownsCallback cb cbV) (registerCallback a q askKey cb)
      fun r => fact ((r.1, r.2.serves) =
          ((LibAmp.ampPutCallback a.serves proto.outstandingRequests askKey cbV).1,
            (LibAmp.ampPutCallback a.serves proto.outstandingRequests askKey cbV).2.2)) *
        if r.1 = 0 then
          protoHolding texts q { proto with toDispatcher := { proto.toDispatcher with
            outstandingRequests :=
              (LibAmp.ampPutCallback a.serves proto.outstandingRequests askKey cbV).2.1 } }
            (gone.addCallbacks
              (LibAmp.tableGet proto.outstandingRequests askKey.toUInt32).toList)
            askKey.toUInt32 cb
        else
          protoAt texts q { proto with toDispatcher := { proto.toDispatcher with
            outstandingRequests :=
              (LibAmp.ampPutCallback a.serves proto.outstandingRequests askKey cbV).2.1 } }
            (gone.addCallbacks
              (LibAmp.tableGet proto.outstandingRequests askKey.toUInt32).toList) *
            ownsCallback cb { cbV with askKey := askKey } := by
  refine Spec.of_protoAt fun p holds => ?_
  refine Spec.look (Returns.readAs viewProto (dvd_mul_right _ _) rfl) ?_
  obtain ⟨F, others⟩ : ∃ F, F = cell q (.proto p) * (nullable ownsBox p.box proto.box *
      (respondersAt texts p.responders proto.responders gone.responders *
        scattered ownsBox gone.boxes)) := ⟨_, rfl⟩
  refine Spec.finish (ampPutCallback_spec p.outstandingRequests proto.outstandingRequests
    gone.callbacks cbV a askKey) (F := F) ?_ fun r => ?_
  · rw [partsAt, others]
    ac_rfl
  obtain ⟨map, put⟩ : ∃ map,
      map = (LibAmp.ampPutCallback a.serves proto.outstandingRequests askKey cbV).2.1 := ⟨_, rfl⟩
  rw [← put, mul_assoc]
  refine mul_mono le_rfl ?_
  have holds' : p.Holds { proto with toDispatcher := { proto.toDispatcher with
      outstandingRequests := map } } := ⟨holds.parser, holds.lastAskKey, holds.write⟩
  by_cases stored : r.1 = 0
  · rw [if_pos stored, if_pos stored, protoHolding]
    refine le_iSup_of_le p (le_fact_mul holds' (le_of_eq ?_))
    rw [others]
    dsimp only [Forgotten.addCallbacks]
    ac_rfl
  · rw [if_neg stored, if_neg stored]
    refine le_trans (le_of_eq ?_) (mul_mono (le_protoAt holds') le_rfl)
    rw [others, partsAt]
    dsimp only [Forgotten.addCallbacks]
    ac_rfl

theorem lastAskKey_returns {P : Assertion Block} {key : UInt32}
    (part : protoHolding texts q proto gone key cb ∣ P) :
    Returns P (lastAskKey q) proto.lastAskKey := by
  refine Returns.of_dvd (Returns.of_iSup fun p => Returns.of_fact fun holds => ?_) part
  rw [← holds.lastAskKey]
  exact (Returns.readAs viewProto (dvd_mul_right _ _) rfl).bind (Returns.ret _ _)

/-! ## Making a call -/

/-- Storing into the box that was passed in, the rest of the heap being `R`. -/
theorem callerPut_spec {α : Type} {R : Assertion Block} (a : BlockAllocator) {key : CString}
    {buf : List UInt8} {n : Int} {r : PutResult}
    (put : LibAmp.ampPutBuf a.serves argsV key buf n = .ok r)
    {c : AmpError × BlockAllocator → Program α} {Q : α → Assertion Block}
    (next : ∀ a', a'.serves = r.mem →
      Spec (R * callerAt args r.box app own) (c (r.ret, a')) Q) :
    Spec (R * callerAt args argsV app own) (ampPutBuf a args key buf n >>= c) Q := by
  refine Spec.step (putBuf_spec a put) (F := R * applicationAt app own) ?_ ?_
  · rw [callerAt]
    ac_rfl
  rintro ⟨ret, a'⟩
  rw [mul_assoc]
  refine Spec.of_fact ?_
  rintro ⟨rfl, mem⟩
  refine Spec.rearrange (show _ = R * callerAt args r.box app own from ?_) (next a' mem)
  rw [callerAt]
  ac_rfl

variable (proto) in
/-- The end of a call, with the proto as `R`, and whatever `failed` does to it. -/
theorem callWrite_spec {R : Assertion Block} (le : R ≤ protoAt texts q proto gone) {box : AmpBox}
    (a : BlockAllocator) {askKey : Int32} {cbV : Option Callback} {askKeyRet : Option UInt32}
    {v : Called (Application U Object)}
    (failed : ∀ err a',
      LibAmp.callFailed err askKey cbV proto.toDispatcher (some box) a'.serves own askKeyRet = v →
      Spec (R * callerAt args (some box) app own) (callFailed err askKey q cb askKeyRet a' app)
        (called texts q args proto gone v))
    (run : LibAmp.callWrite (keeping handler) askKey cbV proto.toDispatcher box a.serves own
      askKeyRet = .ok v) :
    Spec (R * callerAt args (some box) app own)
      (callWrite handler a q cb args askKey askKeyRet app) (called texts q args proto gone v) := by
  unfold LibAmp.callWrite at run
  cases serialized : LibAmp.ampSerializeBox a.serves box with
  | error e => simp [serialized] at run
  | ok s =>
    rw [serialized] at run
    refine Spec.settle (ampSerializeBox_spec a serialized) (mul_left_comm _ _ _)
      (fun err a' result => ?_) fun buf bytes a' result => ?_
    · subst result
      refine Spec.rearrange (mul_left_comm _ _ _) (failed err a' (Except.ok.inj run))
    · subst result
      dsimp only at run ⊢
      cases sent : LibAmp.ampDoWrite (keeping handler) proto.toDispatcher bytes own with
      | error e => simp [sent] at run
      | ok w =>
        simp only [sent, Except.ok.injEq] at run
        subst run
        refine Spec.rearrange (show _ = R * (ownsBytes buf bytes * ownsBox args box *
          applicationAt app own) by ac_rfl) ?_
        refine Spec.conseq ?_ (mul_mono le le_rfl) fun _ => le_rfl
        refine Spec.of_protoAt fun p holds => ?_
        refine Spec.step (ampDoWrite_spec holds.write sent)
          (F := partsAt texts p proto gone * ownsBox args box) (by ac_rfl) fun r => ?_
        rw [mul_assoc]
        refine Spec.of_fact fun ret => ?_
        refine Spec.done _ (le_fact_mul ⟨ret, rfl, rfl⟩ (le_trans (le_of_eq ?_)
          (mul_mono (le_protoAt holds) le_rfl)))
        rw [callerAt, nullable]
        ac_rfl

/-- A call that gives up before it has a callback. -/
theorem callFailed_early (a : BlockAllocator) (ret : Int) {v : Called (Application U Object)}
    (result : LibAmp.callFailed ret (-1) none proto.toDispatcher argsV a.serves own none = v) :
    Spec (protoAt texts q proto gone * callerAt args argsV app own)
      (callFailed ret (-1) q 0 none a app)
      (called texts q args proto
        (gone.addCallbacks (displaced proto.toDispatcher v.askKey)) v) := by
  subst result
  exact Spec.pos rfl (Spec.done _ (le_fact_mul ⟨rfl, rfl, rfl⟩ le_rfl))

theorem callFailed_askKey {σ : Type} {ret : Int} {askKey : Int32} {cbV : Option Callback}
    {d : Dispatcher} {argsV : Option AmpBox} {mem : Mem} {state : σ} {askKeyRet : Option UInt32} :
    (LibAmp.callFailed ret askKey cbV d argsV mem state askKeyRet).askKey = askKeyRet := by
  cases cbV <;> rfl

theorem callWrite_askKey {σ : Type} {write : WriteHandler σ} {askKey : Int32}
    {cbV : Option Callback} {d : Dispatcher} {box : AmpBox} {mem : Mem} {state : σ}
    {askKeyRet : Option UInt32} {v : Called σ}
    (run : LibAmp.callWrite write askKey cbV d box mem state askKeyRet = .ok v) :
    v.askKey = askKeyRet := by
  unfold LibAmp.callWrite at run
  split at run
  · cases run
  · obtain rfl := Except.ok.inj run
    exact callFailed_askKey
  · split at run
    · cases run
    · obtain rfl := Except.ok.inj run
      rfl

/-- Where a callback cannot be registered, there is none under its key. -/
theorem popped_of_unregistered (mem : Mem) (map : CallbackMap) (askKey : Int32) (cbV : Callback)
    (failed : (LibAmp.ampPutCallback mem map askKey cbV).1 ≠ 0) :
    (LibAmp.ampPutCallback mem map askKey cbV).2.1 = map ∧
      LibAmp.ampPopCallback map askKey = (none, map) := by
  unfold LibAmp.ampPutCallback LibAmp.tablePut at *
  unfold LibAmp.ampPopCallback LibAmp.tableRemove
  dsimp only at failed ⊢
  cases found : map.find askKey.toUInt32 with
  | some b => simp [found] at failed
  | none =>
    cases served : mem 0 .tableBinding with
    | false => simp [malloc, served]
    | true => simp [found, malloc, served] at failed

variable (proto) in
/-- A call from the moment its callback is registered. -/
theorem callRegistered_spec (nonNull : cb ≠ 0) (a : BlockAllocator) {askKey : Int32}
    {cbV : Callback} {askKeyRet : Option UInt32} {v : Called (Application U Object)} {r : PutResult}
    (put : LibAmp.ampPutUint a.serves argsV Key.ask proto.lastAskKey = .ok r)
    (failed : r.ret ≠ 0 → LibAmp.callFailed r.ret askKey (some cbV) proto.toDispatcher r.box r.mem
      own askKeyRet = v)
    (wrote : r.ret = 0 → ∃ box, r.box = some box ∧ LibAmp.callWrite (keeping handler) askKey
      (some cbV) proto.toDispatcher box r.mem own askKeyRet = .ok v) :
    Spec (protoHolding texts q proto gone askKey.toUInt32 cb * callerAt args argsV app own)
      (do
        let key ← lastAskKey q
        let (ret, a) ← ampPutUint a args Key.ask key
        if ret ≠ 0 then callFailed ret askKey q cb askKeyRet a app
        else callWrite handler a q cb args askKey askKeyRet app)
      (called texts q args proto gone v) := by
  refine Spec.look (lastAskKey_returns (dvd_mul_right _ _)) ?_
  unfold LibAmp.ampPutUint at put
  refine callerPut_spec a put fun a' mem => ?_
  rw [← mem] at failed wrote
  by_cases bad : r.ret ≠ 0
  · rw [← failed bad]
    exact Spec.pos bad (callFailed_spec a' r.ret askKey cbV _ nonNull)
  · obtain ⟨box, filled, run⟩ := wrote (not_not.1 bad)
    refine Spec.neg bad ?_
    rw [filled]
    refine callWrite_spec proto protoHolding_le a' (fun err a'' result => ?_) run
    rw [← result]
    exact callFailed_spec a'' err askKey cbV _ nonNull

/-- Making a call on the heap is making it on values, and what its key displaces is forgotten. -/
theorem ampCall_spec (a : BlockAllocator) {command : CString} {func arg : Nat}
    {v : Called (Application U Object)}
    (run : LibAmp.ampCall (keeping handler) proto.toDispatcher a.serves command argsV func arg own =
      .ok v) :
    Spec (protoAt texts q proto gone * callerAt args argsV app own)
      (ampCall handler a q args command func arg app)
      (called texts q args proto
        (gone.addCallbacks (displaced proto.toDispatcher v.askKey)) v) := by
  unfold LibAmp.ampCall at run
  split at run
  · cases run
  next r put =>
  refine callerPut_spec a put fun a₁ mem₁ => ?_
  rw [← mem₁] at run
  by_cases bad : r.ret ≠ 0
  · rw [if_pos bad] at run
    exact Spec.pos bad (callFailed_early a₁ r.ret (Except.ok.inj run))
  rw [if_neg bad] at run
  refine Spec.neg bad ?_
  unfold LibAmp.ampNewCallback at run
  refine ampNewCallback_spec (fun served cb nonNull => Spec.neg nonNull ?_)
    fun refused => Spec.pos rfl ?_
  swap
  · rw [malloc, refused] at run
    exact callFailed_early (a₁.drop 1) enomem (Except.ok.inj run)
  rw [malloc, served] at run
  dsimp only at run
  refine Spec.step ampNextAskKey_spec (mul_left_comm _ _ _) fun askKey => ?_
  rw [mul_assoc]
  refine Spec.of_fact ?_
  rintro rfl
  obtain ⟨askKey, key⟩ : ∃ askKey, askKey = (LibAmp.ampNextAskKey proto.toDispatcher).1 := ⟨_, rfl⟩
  obtain ⟨d, after⟩ : ∃ d, d = (LibAmp.ampNextAskKey proto.toDispatcher).2 := ⟨_, rfl⟩
  have map : d.outstandingRequests = proto.outstandingRequests := by rw [after]; rfl
  obtain ⟨a₂, alloc₂⟩ : ∃ a₂, a₂ = a₁.drop 1 := ⟨_, rfl⟩
  have serves : (fun n => a₁.serves (n + 1)) = a₂.serves := by rw [alloc₂]; rfl
  obtain ⟨cbV, fresh⟩ : ∃ cbV : Callback, cbV = ⟨0, func, arg⟩ := ⟨_, rfl⟩
  rw [← key, ← after, serves, ← fresh] at run
  rw [← key, ← after, ← alloc₂, ← fresh]
  dsimp only
  have lost : gone.addCallbacks (displaced proto.toDispatcher (some askKey.toUInt32)) =
      gone.addCallbacks (LibAmp.tableGet d.outstandingRequests askKey.toUInt32).toList := by
    rw [map, displaced, Option.toList_some, List.flatMap_singleton]
  refine Spec.step (registerCallback_spec texts q cb { proto with toDispatcher := d } gone cbV a₂
    askKey) (mul_assoc _ _ _).symm ?_
  rintro ⟨ret, a₃⟩
  rw [mul_assoc]
  refine Spec.of_fact fun put => ?_
  obtain ⟨ret₂, mem₂⟩ := Prod.mk.inj put
  have unregistered := popped_of_unregistered a₂.serves d.outstandingRequests askKey cbV
  obtain ⟨newMap, stored⟩ : ∃ map, map =
      (LibAmp.ampPutCallback a₂.serves d.outstandingRequests askKey cbV).2.1 := ⟨_, rfl⟩
  dsimp only at ret₂ mem₂
  rw [← stored, ← ret₂] at unregistered
  rw [← stored, ← mem₂, ← ret₂] at run
  rw [← stored]
  by_cases bad₂ : ret ≠ 0
  · rw [if_pos bad₂] at run
    refine Spec.pos bad₂ ?_
    rw [if_neg bad₂]
    obtain ⟨same, absent⟩ := unregistered bad₂
    rw [same] at run ⊢
    obtain rfl := Except.ok.inj run
    rw [callFailed_askKey, lost, mul_assoc]
    exact callFailed_unregistered { proto with toDispatcher := d } a₃ ret _ cbV _ absent
  · rw [if_neg bad₂] at run
    refine Spec.neg bad₂ ?_
    rw [if_pos (not_not.1 bad₂)]
    split at run
    · cases run
    next r put₃ =>
    by_cases bad₃ : r.ret ≠ 0
    · rw [if_pos bad₃] at run
      have result := Except.ok.inj run
      rw [← result, callFailed_askKey, result, lost]
      exact callRegistered_spec { proto with toDispatcher := { d with
        outstandingRequests := newMap } } nonNull a₃ put₃ (fun _ => result)
        fun good => absurd good bad₃
    · rw [if_neg bad₃] at run
      split at run
      · cases run
      next box filled =>
      rw [callWrite_askKey run, lost]
      exact callRegistered_spec { proto with toDispatcher := { d with
        outstandingRequests := newMap } } nonNull a₃ put₃ (fun bad => absurd bad bad₃)
        fun _ => ⟨box, filled, run⟩

theorem ampCallNoAnswer_spec (a : BlockAllocator) {command : CString}
    {v : Called (Application U Object)}
    (run : LibAmp.ampCallNoAnswer (keeping handler) proto.toDispatcher a.serves command argsV own =
      .ok v) :
    Spec (protoAt texts q proto gone * callerAt args argsV app own)
      (ampCallNoAnswer handler a q args command app) (called texts q args proto gone v) := by
  unfold LibAmp.ampCallNoAnswer at run
  split at run
  · cases run
  next r put =>
  refine callerPut_spec a put fun a' mem => ?_
  rw [← mem] at run
  by_cases bad : r.ret ≠ 0
  · rw [if_pos bad] at run
    obtain rfl := Except.ok.inj run
    exact Spec.pos bad (Spec.pos rfl (Spec.done _ (le_fact_mul ⟨rfl, rfl, rfl⟩ le_rfl)))
  rw [if_neg bad] at run
  refine Spec.neg bad ?_
  cases filled : r.box with
  | none => simp [filled] at run
  | some box =>
    simp only [filled] at run
    rw [callerAt, nullable]
    refine Spec.step (delKey_spec Key.ask) (mul_left_comm _ _ _) fun _ => ?_
    rw [mul_assoc]
    refine Spec.of_fact fun _ => ?_
    refine Spec.rearrange (show _ = protoAt texts q proto gone * callerAt args
      (some (LibAmp.ampDelKey box Key.ask).1) app own from ?_) ?_
    · rw [callerAt, nullable]
      ac_rfl
    refine callWrite_spec proto le_rfl a' (fun err a'' result => ?_) run
    subst result
    exact Spec.pos rfl (Spec.done _ (le_fact_mul ⟨rfl, rfl, rfl⟩ le_rfl))

variable (own) in
theorem ampCancel_spec (a : BlockAllocator) (askKey : Int32) (held : Option AmpBox) :
    Spec (protoAt texts q proto gone) (ampCancel a q askKey) fun r =>
      fact (r.2.serves =
          (LibAmp.ampCancel proto.toDispatcher held a.serves askKey own).mem) *
        (flowAt r.1 (LibAmp.ampCancel proto.toDispatcher held a.serves askKey own).flow *
          protoAt texts q { proto with toDispatcher :=
            (LibAmp.ampCancel proto.toDispatcher held a.serves askKey own).proto } gone) := by
  have nothing : payload 0 0 .cancel = 1 := by
    have response : nullable ownsResponse 0 none = (1 : Assertion Block) := fact_of rfl
    have error : nullable ownsError 0 none = (1 : Assertion Block) := fact_of rfl
    exact (congrArg₂ (· * ·) response error).trans (one_mul 1)
  rw [← mul_one (protoAt texts q proto gone), ← nothing]
  refine completeCall_spec proto a askKey ampNoSuchAskKey rfl ?_
  rw [nothing]
  exact Spec.ret (fun _ => 1) ()

/-- Responding takes the key from the request, which stays as it is. -/
theorem ampRespond_spec (a : BlockAllocator) {r : Ptr} {request : AmpRequest}
    {v : Responded (Application U Object)}
    (run : LibAmp.ampRespond (keeping handler) proto.toDispatcher a.serves request argsV own =
      .ok v) :
    Spec (protoAt texts q proto gone * (ownsRequest r request * callerAt args argsV app own))
      (ampRespond handler a q r args app) fun s => fact (s.1 = v.ret ∧ s.2.1.serves = v.mem) *
        (protoAt texts q proto gone *
          (ownsRequest r request * callerAt args v.args s.2.2 v.own)) := by
  unfold LibAmp.ampRespond at run
  cases asked : request.askKey with
  | none => simp [asked] at run
  | some askKey =>
    simp only [asked] at run
    refine Spec.rearrange (mul_left_comm _ _ _) (Spec.of_ownsRequest fun c k boxPtr => ?_)
    have folded := le_ownsRequest r c k boxPtr request
    rw [asked] at folded ⊢
    refine Spec.look (Returns.readAs viewRequest ((dvd_mul_right _ _).mul_right _) rfl) ?_
    refine Spec.look (Returns.readAs viewChunk
      ((((dvd_mul_right _ _).mul_left _).mul_left _).mul_right _) rfl) ?_
    refine Spec.conseq ?_ (mul_mono folded le_rfl) fun _ => le_rfl
    split at run
    · cases run
    next s put =>
    refine Spec.rearrange (show _ = ownsRequest r request * protoAt texts q proto gone *
      callerAt args argsV app own by ac_rfl) (callerPut_spec a put fun a' mem => ?_)
    rw [← mem] at run
    by_cases bad : s.ret ≠ 0
    · rw [if_pos bad] at run
      obtain rfl := Except.ok.inj run
      refine Spec.pos bad (Spec.done _ (le_fact_mul ⟨rfl, rfl⟩ (le_of_eq ?_)))
      ac_rfl
    rw [if_neg bad] at run
    refine Spec.neg bad ?_
    cases filled : s.box with
    | none => simp [filled] at run
    | some box =>
      simp only [filled] at run
      split at run
      · cases run
      next w sent =>
      obtain rfl := Except.ok.inj run
      refine Spec.rearrange (show _ = protoAt texts q proto gone * (ownsBox args box *
        (ownsRequest r request * applicationAt app own)) from ?_) ?_
      · rw [callerAt, nullable]
        ac_rfl
      refine Spec.of_protoAt fun p holds => ?_
      refine Spec.finish (serializeAndSend_spec (P := cell q (.proto p))
        (fun _ _ _ written => ampDoWrite_spec holds.write written) a' sent)
        (F := partsAt texts p proto gone * ownsRequest r request) (by ac_rfl) fun x => ?_
      rw [mul_assoc]
      refine mul_mono le_rfl (le_trans (le_of_eq ?_) (mul_mono (le_protoAt holds) le_rfl))
      rw [callerAt, nullable]
      ac_rfl

end Calls

end LibAmp.OnHeap
