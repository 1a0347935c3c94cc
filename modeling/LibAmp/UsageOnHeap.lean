import LibAmp.BoxesOnHeap
import LibAmp.Usage

/-!
# An application at work on the heap

The same application and the same calls on the heap: objects are pointers, and the calls that wait
hold the callback to be freed. Whatever the application does, in whatever order and from within
whatever user code, the library does on the heap what it does on values.

## Main results

* `run_spec` — any actions, under any allocator.
* `session_refines` — from `amp_new_proto` to `amp_free_proto`, nothing is left of a session but
  what the library forgot.
-/

namespace LibAmp.OnHeap

open Heap Linked Separation Assertion

variable {U : Type}

/-! ## Actions on the heap -/

/-- An application with its proto. -/
structure Client (U : Type) where
  proto : Ptr
  alloc : BlockAllocator
  app : Application U Ptr
  frames : List (Frame Ptr)

/-- A box to be passed to the library. -/
def takeArgs (app : Application U Ptr) : Option Nat → Option (Ptr × Application U Ptr)
  | none => some (0, app)
  | some i => app.take i

def giveArgs (app : Application U Ptr) (args : Ptr) : Application U Ptr :=
  if args = 0 then app else app.give args

/-- A box, `request->args` or `result->response->args`. -/
def argsOf (p : Ptr) : Kind → Program Ptr
  | .box => return p
  | .request => do
    let (_, _, args) ← readAs viewRequest p
    return args
  | .result => do
    let (_, response, _) ← readAs viewResult p
    let (_, args) ← readAs viewResponse response
    return args
  | .packet => fail .shape

def freeObject (p : Ptr) : Kind → Program Unit
  | .box => ampFreeBox p
  | .request => ampFreeRequest p
  | .result => ampFreeResult p
  | .packet => free p

namespace Client

/-! ### Boxes and other objects -/

def newBox (c : Client U) : Program (Reply × Client U) := do
  let (box, a) ← ampNewBox c.alloc .box
  return (.made (box ≠ 0), { c with alloc := a, app := giveArgs c.app box })

def boxOp (c : Client U) (kind : Kind) (i : Nat) (op : BoxOp) : Program (Reply × Client U) :=
  match c.app.take i with
  | none => fail .undefined
  | some (p, app) => do
    let box ← argsOf p kind
    let (reply, a) ← runOp c.alloc box op
    return (.box reply, { c with alloc := a, app := app.give p })

def release (c : Client U) (kind : Kind) (i : Nat) : Program (Reply × Client U) :=
  match c.app.take i with
  | none => fail .undefined
  | some (p, app) => do
    freeObject p kind
    return (.nothing, { c with app := app })

/-! ### The proto -/

def addResponder (texts : List (Ptr × CString)) (c : Client U) (name func arg : Nat) :
    Program (Reply × Client U) :=
  match texts[name]? with
  | none => fail .undefined
  | some (command, _) => do
    let a ← ampAddResponder c.alloc c.proto command func arg
    return (.nothing, { c with alloc := a })

def reset (c : Client U) : Program (Reply × Client U) := do
  let a ← ampResetProto c.alloc c.proto
  return (.nothing, { c with alloc := a })

/-! ### Calls and responses -/

/-- A call with a box of the application. -/
def passing (c : Client U) (args : Option Nat)
    (send : Ptr → Application U Ptr → Program (CallReturn U)) : Program (Reply × Client U) :=
  match takeArgs c.app args with
  | none => fail .undefined
  | some (box, app) => do
    let (ret, askKey, a, app) ← send box app
    return (.called ret askKey, { c with alloc := a, app := giveArgs app box })

def call (write : WriteHandler U) (c : Client U) (command : CString) (args : Option Nat)
    (func arg : Nat) : Program (Reply × Client U) :=
  c.passing args fun box app => ampCall write c.alloc c.proto box command func arg app

def callNoAnswer (write : WriteHandler U) (c : Client U) (command : CString)
    (args : Option Nat) : Program (Reply × Client U) :=
  c.passing args fun box app => ampCallNoAnswer write c.alloc c.proto box command app

def respond (write : WriteHandler U) (c : Client U) (request : Nat) (args : Option Nat) :
    Program (Reply × Client U) :=
  match c.app.take request with
  | none => fail .undefined
  | some (p, app) =>
    match takeArgs app args with
    | none => fail .undefined
    | some (box, app) => do
      let (ret, a, app) ← ampRespond write c.alloc c.proto p box app
      return (.code ret, { c with alloc := a, app := (giveArgs app box).give p })

/-! ### User code -/

/-- The library runs user code and waits for it. -/
def enter (c : Client U) (loop : Option (List UInt8 × Int)) :
    Invocation → Program (Reply × Client U)
  | .responder func arg request =>
    return (.responder func arg,
      { c with app := c.app.give request, frames := ⟨0, loop⟩ :: c.frames })
  | .callback callback result => do
    let cb ← readAs viewCallback callback
    return (.callback cb.func cb.arg,
      { c with app := c.app.give result, frames := ⟨callback, loop⟩ :: c.frames })

def cancel (c : Client U) (askKey : Int32) : Program (Reply × Client U) := do
  let (flow, a) ← ampCancel c.alloc c.proto askKey
  let c := { c with alloc := a }
  match flow with
  | .ret code => return (.code code, c)
  | .invoke invocation => c.enter none invocation

def pumped (c : Client U) : ConsumeReturn U → Program (Reply × Client U)
  | (.done ret, a, app) => return (.code ret, { c with alloc := a, app := app })
  | (.stopped invocation rest bytesConsumed, a, app) =>
    enter { c with alloc := a, app := app } (some (rest, bytesConsumed)) invocation

def consume (write : WriteHandler U) (c : Client U) (buf : List UInt8) :
    Program (Reply × Client U) := do
  let r ← consumeUpTo write c.alloc c.proto c.app buf
  c.pumped r

/-- User code returns to the call that has run it. -/
def returns (write : WriteHandler U) (c : Client U) : Program (Reply × Client U) :=
  match c.frames with
  | [] => fail .undefined
  | frame :: frames => do
    unlessNull ampFreeCallback frame.callback
    let c := { c with frames := frames }
    match frame.loop with
    | none => return (.code 0, c)
    | some (rest, bytesConsumed) =>
      let r ← resume write c.alloc c.proto c.app rest bytesConsumed
      c.pumped r

/-! ### Runs -/

/-- Perform an action. -/
def step (write : WriteHandler U) (texts : List (Ptr × CString)) (c : Client U) :
    Action → Program (Reply × Client U)
  | .newBox => c.newBox
  | .boxOp kind object op => c.boxOp kind object op
  | .release kind object => c.release kind object
  | .setWriteHandler func arg => do
    ampSetWriteHandler c.proto func arg
    return (.nothing, c)
  | .addResponder name func arg => addResponder texts c name func arg
  | .removeResponder name => do
    ampRemoveResponder c.proto name
    return (.nothing, c)
  | .call command args func arg => c.call write command args func arg
  | .callNoAnswer command args => c.callNoAnswer write command args
  | .cancel askKey => c.cancel askKey
  | .respond request args => c.respond write request args
  | .consume buf => c.consume write buf
  | .returns => c.returns write
  | .reset => c.reset

/-- Perform some actions in order and collect the replies. -/
def run (write : WriteHandler U) (texts : List (Ptr × CString)) (c : Client U) :
    List Action → Program (List Reply × Client U)
  | [] => return ([], c)
  | action :: actions => do
    let (reply, c) ← c.step write texts action
    let (replies, c) ← run write texts c actions
    return (reply :: replies, c)

end Client

/-- From `amp_new_proto` to `amp_free_proto`. -/
def runSession (write : WriteHandler U) (texts : List (Ptr × CString)) (a : BlockAllocator)
    (keyData : Buffer (256 + 1)) (valData : Buffer (256 * 256)) (state : U)
    (actions : List Action) : Program (Option (List Reply)) := do
  let (proto, a) ← ampNewProto a keyData valData
  if proto = 0 then return none
  else
    let (replies, c) ← Client.run write texts ⟨proto, a, ⟨state, []⟩, []⟩ actions
    ampFreeProto c.proto
    return some replies

/-! ## What the pointers stand for -/

def frameAt (frame : Frame Ptr) (v : Frame (Option Callback)) : Assertion Block :=
  fact (frame.loop = v.loop) * nullable ownsCallback frame.callback v.callback

/-- The blocks of a client. -/
def clientAt (texts : List (Ptr × CString)) (c : Client U) (v : LibAmp.Client U) :
    Assertion Block :=
  fact (c.alloc.serves = v.mem) * (protoAt texts c.proto v.proto v.gone *
    (textsAt texts * (applicationAt c.app v.app * aligned frameAt c.frames v.frames)))

/-- What an action leaves, and its reply. -/
def replied (texts : List (Ptr × CString)) (v : Reply × LibAmp.Client U) (r : Reply × Client U) :
    Assertion Block :=
  fact (r.1 = v.1) * clientAt texts r.2 v.2

section Objects

variable {p : Ptr} {o : Object} {app : Application U Ptr} {v v' : Application U Object}
  {α : Type} {F : Assertion Block} {c : Program α} {Q : α → Assertion Block}

theorem applicationAt_give :
    applicationAt (app.give p) (v.give o) = ownsObject p o * applicationAt app v :=
  mul_left_comm _ _ _

theorem Spec.of_take {i : Nat} (took : v.take i = some (o, v'))
    (spec : ∀ p app', app.take i = some (p, app') →
      Spec (ownsObject p o * (applicationAt app' v' * F)) c Q) :
    Spec (applicationAt app v * F) c Q := by
  unfold Application.take at took spec
  cases found : v.objects[i]? with
  | none => simp [found] at took
  | some o' =>
    simp only [found, Option.some.injEq, Prod.mk.injEq] at took
    obtain ⟨rfl, rfl⟩ := took
    rw [applicationAt, mul_assoc]
    refine Spec.of_fact fun same => Spec.of_aligned found fun p at_i => ?_
    refine (spec p _ (by rw [at_i])).conseq (mul_mono le_rfl ?_) fun _ => le_rfl
    exact mul_mono (le_fact_mul same le_rfl) le_rfl

theorem Spec.of_takeArgs {args : Option Nat} {box : Option AmpBox}
    (took : LibAmp.takeArgs v args = some (box, v'))
    (spec : ∀ p app', takeArgs app args = some (p, app') →
      Spec (nullable ownsBox p box * (applicationAt app' v' * F)) c Q) :
    Spec (applicationAt app v * F) c Q := by
  cases args with
  | none =>
    obtain ⟨rfl, rfl⟩ := Prod.mk.inj (Option.some.inj took)
    refine (spec 0 app rfl).conseq ?_ fun _ => le_rfl
    exact le_fact_mul rfl le_rfl
  | some i =>
    unfold LibAmp.takeArgs at took
    rcases found : v.take i with _ | ⟨o, app'⟩
    · simp [found] at took
    · cases o with
      | box b =>
        simp only [found, Option.some.injEq, Prod.mk.injEq] at took
        obtain ⟨rfl, rfl⟩ := took
        exact Spec.of_take found spec
      | request r => simp [found] at took
      | result r => simp [found] at took
      | packet bytes => simp [found] at took

/-- Passing a box back; the null pointer is not kept. -/
theorem giveArgs_le (box : Option AmpBox) :
    nullable ownsBox p box * applicationAt app v ≤
      applicationAt (giveArgs app p) (LibAmp.giveArgs v box) := by
  cases box with
  | none =>
    refine fact_mul_le fun null => ?_
    rw [giveArgs, if_pos null]
    exact le_rfl
  | some box =>
    refine le_trans (mul_mono nonNull_box.le le_rfl) ?_
    rw [mul_assoc]
    refine fact_mul_le fun nonNull => ?_
    rw [giveArgs, if_neg nonNull]
    exact le_of_eq (applicationAt_give (o := .box box)).symm

/-- The box of an object, which may be changed. -/
theorem argsOf_spec {box : AmpBox} (has : o.args = some box) {k : Ptr → Program α}
    (spec : ∀ b R, (∀ box', ownsBox b box' * R ≤ ownsObject p (o.withArgs box')) →
      Spec (ownsBox b box * (R * F)) (k b) Q) :
    Spec (ownsObject p o * F) (argsOf p o.kind >>= k) Q := by
  cases o with
  | box b =>
    obtain rfl := Option.some.inj has
    refine Spec.rearrange ?_ (spec p 1 fun box' => le_of_eq (mul_one _))
    rw [one_mul]
    rfl
  | request r =>
    obtain rfl := Option.some.inj has
    refine Spec.of_ownsRequest fun command askKey args => ?_
    simp only [Object.kind, argsOf, bind_assoc]
    refine Spec.look (Returns.readAs viewRequest ((dvd_mul_right _ _).mul_right _) rfl) ?_
    refine Spec.rearrange ?_ (spec args (cell p (.request command askKey args) *
      (ownsChunk command r.command * nullable ownsChunk askKey r.askKey)) fun box' => ?_)
    · ac_rfl
    · refine le_trans (le_of_eq ?_)
        (le_ownsRequest p command askKey args { r with args := box' })
      ac_rfl
  | result r =>
    cases r with
    | success r =>
      obtain rfl := Option.some.inj has
      simp only [ownsObject, ownsResult, iSup_mul]
      refine Spec.of_iSup fun response => Spec.of_iSup fun error => ?_
      simp only [Object.kind, argsOf, bind_assoc]
      refine Spec.look (Returns.readAs viewResult ((dvd_mul_right _ _).mul_right _) rfl) ?_
      have parts (r : AmpResponse) : payload response error (.success r) =
          ownsResponse response r * nullable ownsError error none := rfl
      obtain ⟨others, rest⟩ : ∃ others, others = cell p (.result .success response error) *
          nullable ownsError error none := ⟨_, rfl⟩
      refine Spec.rearrange (show _ = ownsResponse response r * (others * F) from ?_) ?_
      · rw [rest, parts, reasonOf]
        ac_rfl
      simp only [ownsResponse, iSup_mul]
      refine Spec.of_iSup fun args => ?_
      refine Spec.look (Returns.readAs viewResponse ((dvd_mul_right _ _).mul_right _) rfl) ?_
      refine Spec.rearrange ?_ (spec args (cell response (.response r.answerKey args) * others)
        fun box' => ?_)
      · ac_rfl
      · have changed : cell response (.response r.answerKey args) * ownsBox args box' ≤
            ownsResponse response { r with args := box' } := le_iSup_of_le args le_rfl
        refine le_iSup_of_le response (le_iSup_of_le error ?_)
        rw [parts, reasonOf]
        refine le_trans (le_of_eq ?_) (mul_mono le_rfl (mul_mono changed le_rfl))
        rw [rest]
        ac_rfl
    | error e => cases has
    | cancel => cases has
  | packet bytes => cases has

theorem freeObject_spec : Spec (ownsObject p o) (freeObject p o.kind) fun _ => 1 := by
  cases o with
  | box b => exact freeBox_spec
  | request r => exact ampFreeRequest_spec r
  | result r => exact ampFreeResult_spec r
  | packet bytes => exact Spec.free p (Block.bytes bytes)

/-- An operation on a box. -/
theorem operate_spec {op : BoxOp} {box box' : AmpBox} {reply : BoxReply} {mem : Mem}
    (a : BlockAllocator) (run : op.run a.serves (some box) = .ok (reply, some box', mem)) :
    Spec (ownsBox p box) (runOp a p op) fun r =>
      fact (r.1 = reply ∧ r.2.serves = mem) * ownsBox p box' := by
  rw [← mul_one (ownsBox p box)]
  refine Spec.of_ownsBox ?_
  rintro b rfl
  rw [mul_one]
  refine (runOp_spec a p b op).post fun r => iSup_le fun b' => fact_mul_le fun performs => ?_
  have same := performs.1.symm.trans run
  simp only [Except.ok.injEq, Prod.mk.injEq, Option.some.injEq] at same
  obtain ⟨rfl, rfl, rfl⟩ := same
  exact le_fact_mul ⟨rfl, rfl⟩ (le_ownsBox p b')

end Objects

/-! ## One action -/

section Actions

variable {texts : List (Ptr × CString)} {c : Client U} {v : LibAmp.Client U}
  {w : Reply × LibAmp.Client U} {write : WriteHandler U}

theorem newBox_refines : Spec (clientAt texts c v) c.newBox (replied texts v.newBox) := by
  refine Spec.of_fact fun mem => ampNewBox_spec fun box a null mem' => ?_
  unfold LibAmp.Client.newBox
  rw [← mem]
  obtain ⟨app, rest⟩ : ∃ app, app = giveArgs c.app box := ⟨_, rfl⟩
  rcases made : LibAmp.ampNewBox .box c.alloc.serves with ⟨_ | b, memV⟩ <;>
    rw [made] at null mem'
  · have null' : box = 0 := null.2 rfl
    refine Spec.done _ (le_fact_mul (by simp [null']) (le_fact_mul mem' ?_))
    refine le_trans (le_of_eq ?_) (mul_mono le_rfl (mul_mono le_rfl (mul_mono
      (giveArgs_le none) le_rfl)))
    ac_rfl
  · have nonNull : box ≠ 0 := fun h => by simpa using null.1 h
    refine Spec.done _ (le_fact_mul (by simp [nonNull]) (le_fact_mul mem' ?_))
    refine le_trans (le_of_eq ?_) (mul_mono le_rfl (mul_mono le_rfl (mul_mono
      (giveArgs_le (some b)) le_rfl)))
    ac_rfl

theorem boxOp_refines {kind : Kind} {i : Nat} {op : BoxOp} (run : v.boxOp kind i op = .ok w) :
    Spec (clientAt texts c v) (c.boxOp kind i op) (replied texts w) := by
  refine Spec.of_fact fun mem => ?_
  unfold LibAmp.Client.boxOp at run
  rcases took : v.app.take i with _ | ⟨o, app⟩
  · simp [took] at run
  simp only [took] at run
  cases has : o.args with
  | none => simp [has] at run
  | some box =>
    simp only [has] at run
    by_cases other : o.kind ≠ kind
    · rw [if_pos other] at run
      cases run
    rw [if_neg other] at run
    obtain rfl := not_not.1 other
    rw [← mem] at run
    rcases ran : op.run c.alloc.serves (some box) with e | ⟨reply, _ | box', memV⟩ <;>
      simp only [ran, Except.ok.injEq, reduceCtorEq] at run
    subst run
    refine Spec.rearrange (show _ = applicationAt c.app v.app *
      (protoAt texts c.proto v.proto v.gone *
        (textsAt texts * aligned frameAt c.frames v.frames)) by ac_rfl) ?_
    refine Spec.of_take took fun p app' took' => ?_
    unfold Client.boxOp
    rw [took']
    refine argsOf_spec has fun b R changed => ?_
    refine Spec.step (operate_spec c.alloc ran) rfl fun r => ?_
    rw [mul_assoc]
    refine Spec.of_fact ?_
    rintro ⟨rfl, mem'⟩
    refine Spec.done _ (le_fact_mul rfl (le_fact_mul mem' ?_))
    rw [applicationAt_give]
    refine le_trans (le_of_eq (mul_assoc _ _ _).symm) (le_trans (mul_mono (changed box') le_rfl)
      (le_of_eq ?_))
    ac_rfl

theorem release_refines {kind : Kind} {i : Nat} (run : v.release kind i = .ok w) :
    Spec (clientAt texts c v) (c.release kind i) (replied texts w) := by
  refine Spec.of_fact fun mem => ?_
  unfold LibAmp.Client.release at run
  rcases took : v.app.take i with _ | ⟨o, app⟩
  · simp [took] at run
  simp only [took] at run
  by_cases other : o.kind ≠ kind
  · rw [if_pos other] at run
    cases run
  rw [if_neg other] at run
  obtain rfl := not_not.1 other
  obtain rfl := Except.ok.inj run
  refine Spec.rearrange (show _ = applicationAt c.app v.app *
    (protoAt texts c.proto v.proto v.gone *
      (textsAt texts * aligned frameAt c.frames v.frames)) by ac_rfl) ?_
  refine Spec.of_take took fun p app' took' => ?_
  unfold Client.release
  rw [took']
  refine Spec.step freeObject_spec rfl fun _ => ?_
  rw [one_mul]
  refine Spec.done _ (le_fact_mul rfl (le_fact_mul mem (le_of_eq ?_)))
  ac_rfl

/-- An action on the proto alone. -/
theorem protoAction_refines {prog : Program Unit} {proto : Dispatcher}
    (spec : Spec (protoAt texts c.proto v.proto v.gone * textsAt texts) prog fun _ =>
      protoAt texts c.proto { v.proto with toDispatcher := proto } v.gone * textsAt texts) :
    Spec (clientAt texts c v) (do prog; return (.nothing, c))
      (replied texts (.nothing, v.withDispatcher proto)) := by
  refine Spec.of_fact fun mem => ?_
  refine Spec.step spec (mul_assoc _ _ _).symm fun _ => ?_
  exact Spec.done _ (le_fact_mul rfl (le_fact_mul mem (le_of_eq (mul_assoc _ _ _))))

theorem addResponder_refines {name func arg : Nat}
    (run : LibAmp.Client.addResponder (texts.map Prod.snd) v name func arg = .ok w) :
    Spec (clientAt texts c v) (Client.addResponder texts c name func arg) (replied texts w) := by
  refine Spec.of_fact fun mem => ?_
  unfold LibAmp.Client.addResponder at run
  rw [List.getElem?_map] at run
  unfold Client.addResponder
  cases named : texts[name]? with
  | none => simp [named] at run
  | some text =>
    obtain ⟨command, text⟩ := text
    simp only [named, Option.map_some] at run
    rw [← mem] at run
    cases added : LibAmp.ampAddResponder v.proto.toDispatcher c.alloc.serves text func arg with
    | error e => simp [added] at run
    | ok r =>
      simp only [added, Except.ok.injEq] at run
      subst run
      refine Spec.step (ampAddResponder_spec c.alloc (List.mem_of_getElem? named) added)
        (mul_assoc _ _ _).symm fun a => ?_
      rw [mul_assoc]
      refine Spec.of_fact fun mem' => ?_
      exact Spec.done _ (le_fact_mul rfl (le_fact_mul mem' (le_of_eq (mul_assoc _ _ _))))

theorem reset_refines : Spec (clientAt texts c v) c.reset (replied texts v.reset) := by
  refine Spec.of_fact fun mem => ?_
  refine Spec.step (ampResetProto_spec c.alloc) rfl fun a => ?_
  rw [mul_assoc]
  refine Spec.of_fact fun mem' => ?_
  unfold LibAmp.Client.reset
  rw [← mem]
  exact Spec.done _ (le_fact_mul rfl (le_fact_mul mem' le_rfl))

/-! ### Calls and responses -/

/-- A call takes a box of the application and gives it back. -/
theorem passing_refines {args : Option Nat}
    {sendV : Option AmpBox → Application U Object →
      Except LibAmp.Fault (Called (Application U Object))}
    {gone : Called (Application U Object) → Forgotten}
    {send : Ptr → Application U Ptr → Program (CallReturn U)}
    (spec : ∀ p box app appV r, sendV box appV = .ok r →
      Spec (protoAt texts c.proto v.proto v.gone * callerAt p box app appV) (send p app)
        (called texts c.proto p v.proto (gone r) r))
    (run : v.passing args sendV gone = .ok w) :
    Spec (protoAt texts c.proto v.proto v.gone *
        (textsAt texts * (applicationAt c.app v.app * aligned frameAt c.frames v.frames)))
      (c.passing args send) (replied texts w) := by
  unfold LibAmp.Client.passing at run
  rcases took : LibAmp.takeArgs v.app args with _ | ⟨box, app⟩
  · simp [took] at run
  simp only [took] at run
  cases sent : sendV box app with
  | error e => simp [sent] at run
  | ok r =>
    simp only [sent, Except.ok.injEq] at run
    subst run
    refine Spec.rearrange (show _ = applicationAt c.app v.app *
      (protoAt texts c.proto v.proto v.gone *
        (textsAt texts * aligned frameAt c.frames v.frames)) by ac_rfl) ?_
    refine Spec.of_takeArgs took fun p app' took' => ?_
    unfold Client.passing
    rw [took']
    refine Spec.step (spec p box app' app r sent)
      (F := textsAt texts * aligned frameAt c.frames v.frames) ?_ fun s => ?_
    · rw [callerAt]
      ac_rfl
    rw [called, mul_assoc]
    refine Spec.of_fact ?_
    rintro ⟨ret, askKey, mem'⟩
    refine Spec.done _ (le_fact_mul (by rw [ret, askKey]) (le_fact_mul mem' ?_))
    refine le_trans (le_of_eq ?_)
      (mul_mono le_rfl (mul_mono le_rfl (mul_mono (giveArgs_le _) le_rfl)))
    rw [callerAt]
    ac_rfl

theorem call_refines {command : CString} {args : Option Nat} {func arg : Nat}
    (run : v.call write command args func arg = .ok w) :
    Spec (clientAt texts c v) (c.call write command args func arg) (replied texts w) := by
  refine Spec.of_fact fun mem => passing_refines (fun p box app appV r called => ?_) run
  exact ampCall_spec c.alloc (mem.symm ▸ called)

theorem callNoAnswer_refines {command : CString} {args : Option Nat}
    (run : v.callNoAnswer write command args = .ok w) :
    Spec (clientAt texts c v) (c.callNoAnswer write command args) (replied texts w) := by
  refine Spec.of_fact fun mem => passing_refines (fun p box app appV r called => ?_) run
  exact ampCallNoAnswer_spec c.alloc (mem.symm ▸ called)

theorem respond_refines {request : Nat} {args : Option Nat}
    (run : v.respond write request args = .ok w) :
    Spec (clientAt texts c v) (c.respond write request args) (replied texts w) := by
  refine Spec.of_fact fun mem => ?_
  unfold LibAmp.Client.respond at run
  rcases took : v.app.take request with _ | ⟨o, app⟩
  · simp [took] at run
  cases o with
  | box b => simp [took] at run
  | result r => simp [took] at run
  | packet bytes => simp [took] at run
  | request r =>
    simp only [took] at run
    rcases tookArgs : LibAmp.takeArgs app args with _ | ⟨box, app₂⟩
    · simp [tookArgs] at run
    simp only [tookArgs] at run
    rw [← mem] at run
    cases responded : LibAmp.ampRespond (keeping write) v.proto.toDispatcher c.alloc.serves r box
        app₂ with
    | error e => simp [responded] at run
    | ok s =>
      simp only [responded, Except.ok.injEq] at run
      subst run
      refine Spec.rearrange (show _ = applicationAt c.app v.app *
        (protoAt texts c.proto v.proto v.gone *
          (textsAt texts * aligned frameAt c.frames v.frames)) by ac_rfl) ?_
      refine Spec.of_take took fun p app' took' => ?_
      refine Spec.rearrange (mul_left_comm _ _ _)
        (Spec.of_takeArgs tookArgs fun q app'' took'' => ?_)
      unfold Client.respond
      rw [took']
      dsimp only
      rw [took'']
      refine Spec.step (P := protoAt texts c.proto v.proto v.gone *
        (ownsRequest p r * callerAt q box app'' app₂)) (ampRespond_spec c.alloc responded)
        (F := textsAt texts * aligned frameAt c.frames v.frames) ?_ fun t => ?_
      · rw [callerAt, ownsObject]
        ac_rfl
      rw [mul_assoc]
      refine Spec.of_fact ?_
      rintro ⟨ret, mem'⟩
      refine Spec.done _ (le_fact_mul (by rw [ret]) (le_fact_mul mem' ?_))
      rw [applicationAt_give]
      refine le_trans (le_of_eq ?_) (mul_mono le_rfl (mul_mono le_rfl (mul_mono
        (mul_mono le_rfl (giveArgs_le _)) le_rfl)))
      rw [callerAt, ownsObject]
      ac_rfl

/-! ### User code -/

theorem enter_refines {loop : Option (List UInt8 × Int)} {invocation : Invocation}
    {invoked : LibAmp.Invocation} :
    Spec (ownsInvocation invocation invoked * clientAt texts c v) (c.enter loop invocation)
      (replied texts (v.enter loop invoked)) := by
  cases invocation with
  | responder func arg request =>
    cases invoked with
    | callback cb result => exact Spec.of_fact False.elim
    | responder r given =>
      rw [ownsInvocation, mul_assoc]
      refine Spec.of_fact ?_
      rintro ⟨rfl, rfl⟩
      rw [clientAt, mul_left_comm]
      refine Spec.of_fact fun mem => Spec.done _ (le_fact_mul rfl (le_fact_mul mem (le_of_eq ?_)))
      have fresh : frameAt ⟨0, loop⟩ ⟨none, loop⟩ = 1 := by
        rw [frameAt, nullable, fact_of rfl, fact_of rfl, one_mul]
      dsimp only [LibAmp.Client.enter]
      rw [applicationAt_give (o := .request given), aligned, fresh, one_mul, ownsObject]
      ac_rfl
  | callback callback result =>
    cases invoked with
    | responder r given => exact Spec.of_fact False.elim
    | callback cb given =>
      rw [ownsInvocation, clientAt, mul_left_comm]
      refine Spec.of_fact fun mem => ?_
      refine Spec.look (Returns.readAs viewCallback (((dvd_mul_right _ _).mul_right _)) rfl) ?_
      refine Spec.done _ (le_fact_mul rfl (le_fact_mul mem (le_of_eq ?_)))
      have entered : frameAt ⟨callback, loop⟩ ⟨some cb, loop⟩ = ownsCallback callback cb := by
        rw [frameAt, nullable, fact_of rfl, one_mul]
      dsimp only [LibAmp.Client.enter]
      rw [applicationAt_give (o := .result given), aligned, entered, ownsObject]
      ac_rfl

theorem cancel_refines {askKey : Int32} :
    Spec (clientAt texts c v) (c.cancel askKey) (replied texts (v.cancel askKey)) := by
  refine Spec.of_fact fun mem => ?_
  unfold Client.cancel LibAmp.Client.cancel
  refine Spec.step (ampCancel_spec v.app c.alloc askKey v.proto.box) rfl fun r => ?_
  obtain ⟨flow, a⟩ := r
  rw [mul_assoc, mem]
  refine Spec.of_fact fun mem' => ?_
  obtain ⟨p, cancelled⟩ : ∃ p, p = LibAmp.ampCancel v.proto.toDispatcher v.proto.box v.mem askKey
    v.app := ⟨_, rfl⟩
  rw [← cancelled] at mem' ⊢
  dsimp only at mem' ⊢
  rw [mul_assoc]
  have left : protoAt texts c.proto { v.proto with toDispatcher := p.proto } v.gone *
      (textsAt texts * (applicationAt c.app v.app * aligned frameAt c.frames v.frames)) ≤
      clientAt texts { c with alloc := a } { v.withDispatcher p.proto with mem := p.mem } :=
    le_fact_mul mem' le_rfl
  cases reached : p.flow with
  | ret code =>
    cases flow with
    | invoke i => exact Spec.of_fact False.elim
    | ret code' =>
      refine Spec.of_fact ?_
      rintro rfl
      exact Spec.done _ (le_fact_mul rfl left)
  | invoke invoked =>
    cases flow with
    | ret code => exact Spec.of_fact False.elim
    | invoke invocation =>
      exact enter_refines.conseq (mul_mono le_rfl left) fun _ => le_rfl

/-- What `amp_consume_bytes` has come to. -/
theorem pumped_refines {gone : Forgotten} {p : LibAmp.Pumped (Application U Object)}
    {r : ConsumeReturn U} (same : v.gone = gone) :
    Spec (pumpedAt texts c.proto gone p r * aligned frameAt c.frames v.frames) (c.pumped r)
      (replied texts (v.pumped p)) := by
  subst same
  obtain ⟨pumped, a, app⟩ := r
  have left (now : Consumer (Dispatcher × Application U Object)) :
      consumerAt texts c.proto v.gone now a app * aligned frameAt c.frames v.frames ≤
        clientAt texts { c with alloc := a, app := app } (v.withConsumer now) := by
    refine le_of_eq ?_
    rw [consumerAt, clientAt]
    dsimp only [LibAmp.Client.withConsumer]
    ac_rfl
  cases p with
  | done ret now =>
    cases pumped with
    | stopped i rest n => exact Spec.of_fact False.elim
    | done ret' =>
      rw [pumpedAt, mul_assoc]
      refine Spec.of_fact ?_
      rintro rfl
      exact Spec.done _ (le_fact_mul rfl (left now))
  | stopped invoked s =>
    cases pumped with
    | done ret => exact Spec.of_fact False.elim
    | stopped invocation rest n =>
      rw [pumpedAt, mul_assoc]
      refine Spec.of_fact fun locals => ?_
      obtain ⟨rfl, rfl⟩ := Prod.mk.inj locals
      refine Spec.rearrange (mul_assoc _ _ _) ?_
      exact enter_refines.conseq (mul_mono le_rfl (left s.now)) fun _ => le_rfl

theorem consume_refines {buf : List UInt8} (run : v.consume write buf = .ok w) :
    Spec (clientAt texts c v) (c.consume write buf) (replied texts w) := by
  unfold LibAmp.Client.consume at run
  cases consumed : LibAmp.consumeUpTo (keeping write) v.consumer buf with
  | error e => simp [consumed] at run
  | ok p =>
    simp only [consumed, Except.ok.injEq] at run
    subst run
    refine Spec.step (P := consumerAt texts c.proto v.gone v.consumer c.alloc c.app)
      (consumeUpTo_spec consumed) (F := aligned frameAt c.frames v.frames) ?_ fun r =>
      pumped_refines rfl
    rw [clientAt, consumerAt, LibAmp.Client.consumer]
    ac_rfl

/-- User code returns: the callback is freed, and `amp_consume_bytes` goes on. -/
theorem returns_refines (run : v.returns write = .ok w) :
    Spec (clientAt texts c v) (c.returns write) (replied texts w) := by
  refine Spec.of_fact fun mem => ?_
  unfold LibAmp.Client.returns at run
  unfold Client.returns
  obtain ⟨proto, memV, app, framesV, gone⟩ := v
  obtain ⟨q, a, appP, frames⟩ := c
  dsimp only at mem run ⊢
  cases framesV with
  | nil => cases run
  | cons frameV framesV =>
    cases frames with
    | nil =>
      have unmatched : aligned frameAt [] (frameV :: framesV) = fact False := rfl
      refine Spec.rearrange (show _ = fact False * (protoAt texts q proto gone * (textsAt texts *
        applicationAt appP app)) from ?_) (Spec.of_fact False.elim)
      rw [unmatched]
      ac_rfl
    | cons frame frames =>
      obtain ⟨callbackV, loopV⟩ := frameV
      obtain ⟨callback, loop⟩ := frame
      rw [aligned, frameAt]
      refine Spec.rearrange (show _ = fact (loop = loopV) *
        (nullable ownsCallback callback callbackV * (protoAt texts q proto gone *
          (textsAt texts * (applicationAt appP app * aligned frameAt frames framesV)))) by
        ac_rfl) ?_
      refine Spec.of_fact ?_
      rintro rfl
      refine Spec.step (Spec.unlessNull ownsCallback (fun cb => nonNull_cell callback _)
        (fun cb => Spec.free callback (Block.callback cb)) callbackV) rfl fun _ => ?_
      rw [one_mul]
      dsimp only at run ⊢
      cases loop with
      | none =>
        obtain rfl := Except.ok.inj run
        exact Spec.done _ (le_fact_mul rfl (le_fact_mul mem le_rfl))
      | some locals =>
        obtain ⟨rest, n⟩ := locals
        dsimp only at run ⊢
        split at run
        · cases run
        · next p resumed =>
          obtain rfl := Except.ok.inj run
          obtain ⟨now, started⟩ : ∃ now : Consumer (Dispatcher × Application U Object),
              now = ⟨proto.toParser, memV, (proto.toDispatcher, app)⟩ := ⟨_, rfl⟩
          have whole : protoOf now = proto := by rw [started]; rfl
          have own : now.own.2 = app := by rw [started]
          have box : now.proto.box = proto.box := by rw [started]
          have memN : a.serves = now.mem := by rw [started, mem]
          rw [LibAmp.Client.consumer, ← started] at resumed
          refine Spec.step (P := consumerAt texts q gone now a appP) (resume_spec resumed)
            (F := aligned frameAt frames framesV) ?_ fun r => ?_
          · rw [consumerAt, fact_of memN, one_mul, mul_assoc, mul_assoc, whole, own]
          · rw [box]
            exact pumped_refines (c := ⟨q, a, appP, frames⟩)
              (v := ⟨proto, memV, app, framesV, gone.addBoxes proto.box.toList⟩) rfl

/-- Whatever the application does, the library does on the heap what it does on values. -/
theorem step_refines {action : Action}
    (run : v.step write (texts.map Prod.snd) action = .ok w) :
    Spec (clientAt texts c v) (c.step write texts action) (replied texts w) := by
  cases action with
  | newBox =>
    obtain rfl := Except.ok.inj run
    exact newBox_refines
  | boxOp kind object op => exact boxOp_refines run
  | release kind object => exact release_refines run
  | setWriteHandler func arg =>
    obtain rfl := Except.ok.inj run
    exact protoAction_refines ((ampSetWriteHandler_spec func arg).frame (textsAt texts))
  | addResponder name func arg => exact addResponder_refines run
  | removeResponder name =>
    obtain rfl := Except.ok.inj run
    exact protoAction_refines (ampRemoveResponder_spec name)
  | call command args func arg => exact call_refines run
  | callNoAnswer command args => exact callNoAnswer_refines run
  | cancel askKey =>
    obtain rfl := Except.ok.inj run
    exact cancel_refines
  | respond request args => exact respond_refines run
  | consume buf => exact consume_refines run
  | returns => exact returns_refines run
  | reset =>
    obtain rfl := Except.ok.inj run
    exact reset_refines

theorem run_spec {actions : List Action} {x : List Reply × LibAmp.Client U}
    (run : v.run write (texts.map Prod.snd) actions = .ok x) :
    Spec (clientAt texts c v) (c.run write texts actions) fun r =>
      fact (r.1 = x.1) * clientAt texts r.2 x.2 := by
  induction actions generalizing c v x with
  | nil =>
    obtain rfl := Except.ok.inj run
    exact Spec.done _ (le_fact_mul rfl le_rfl)
  | cons action actions ih =>
    rw [LibAmp.Client.run] at run
    rcases stepped : v.step write (texts.map Prod.snd) action with e | ⟨reply, v'⟩
    · simp [stepped] at run
    simp only [stepped] at run
    rcases ran : v'.run write (texts.map Prod.snd) actions with e | ⟨replies, v''⟩
    · simp [ran] at run
    simp only [ran, Except.ok.injEq] at run
    subst run
    refine Spec.bind (step_refines stepped) fun r => Spec.of_fact fun same => ?_
    refine Spec.bind (ih ran) fun s => Spec.of_fact fun rest => ?_
    exact Spec.done _ (le_fact_mul (by rw [same, rest]) le_rfl)

end Actions

/-! ## From nothing to nothing -/

/-- What the application has not freed, and the callbacks that waiting calls are still to free. -/
def unfreed (v : LibAmp.Client U) : Assertion Block :=
  ⨆ c : Client U, applicationAt c.app v.app * aligned frameAt c.frames v.frames

/-- The application has freed all objects, and no call waits for user code. -/
def Finished (v : LibAmp.Client U) : Prop := v.app.objects = [] ∧ v.frames = []

theorem unfreed_le_of_finished {v : LibAmp.Client U} (finished : Finished v) :
    unfreed v ≤ 1 := by
  have none {β α : Type} (own : β → α → Assertion Block) (l : List β) :
      aligned own l [] ≤ 1 := by
    cases l with
    | nil => exact le_rfl
    | cons x l => exact fun _ impossible => impossible.1.elim
  refine iSup_le fun c => ?_
  rw [applicationAt, finished.1, finished.2]
  refine le_trans (mul_mono (fact_mul_le fun _ => none _ _) (none _ _)) (le_of_eq (mul_one 1))

/-- What is there of a client. -/
theorem clientAt_le (texts : List (Ptr × CString)) (c : Client U) (v : LibAmp.Client U) :
    clientAt texts c v ≤ protoAt texts c.proto v.proto v.gone * (textsAt texts * unfreed v) :=
  fact_mul_le fun _ => mul_mono le_rfl (mul_mono le_rfl
    (le_iSup (fun c : Client U => applicationAt c.app v.app * aligned frameAt c.frames v.frames) c))

/-- What is left of a session after `amp_free_proto`, besides the names of the responders. -/
def leftOver : Option (List Reply × LibAmp.Client U) → Assertion Block
  | none => 1
  | some r => forgotten r.2.gone * unfreed r.2

theorem leftOver_le_of_finished {x : Option (List Reply × LibAmp.Client U)}
    (finished : ∀ r ∈ x, Finished r.2) :
    leftOver x ≤ forgotten ((x.map fun r => r.2.gone).getD .nothing) := by
  cases x with
  | none => exact le_of_eq forgotten_nothing.symm
  | some r =>
    exact le_trans (mul_mono le_rfl (unfreed_le_of_finished (finished r rfl)))
      (le_of_eq (mul_one _))

theorem runSession_spec {texts : List (Ptr × CString)} {write : WriteHandler U}
    {a : BlockAllocator} {keyData : Buffer (256 + 1)} {valData : Buffer (256 * 256)} {state : U}
    {actions : List Action} {x : Option (List Reply × LibAmp.Client U)}
    (run : LibAmp.runSession write (texts.map Prod.snd) a.serves keyData valData state actions =
      .ok x) :
    Spec (textsAt texts) (runSession write texts a keyData valData state actions) fun replies =>
      fact (replies = x.map Prod.fst) * (textsAt texts * leftOver x) := by
  unfold LibAmp.runSession at run
  rcases made : LibAmp.ampNewProto a.serves keyData valData with e | ⟨proto, mem⟩
  · simp [made] at run
  refine Spec.step (ampNewProto_spec texts a made) (one_mul _).symm fun r => ?_
  obtain ⟨q, a'⟩ := r
  rw [mul_assoc]
  refine Spec.of_fact fun mem' => ?_
  dsimp only at mem' ⊢
  cases proto with
  | none =>
    simp only [made, Except.ok.injEq] at run
    subst run
    refine Spec.of_fact fun null => Spec.pos null (Spec.done _ (le_fact_mul rfl (le_of_eq ?_)))
    rw [leftOver, mul_one]
  | some proto =>
    simp only [made] at run
    rw [← mem'] at run
    obtain ⟨start, fresh⟩ : ∃ start : LibAmp.Client U,
        start = ⟨proto, a'.serves, ⟨state, []⟩, [], .nothing⟩ := ⟨_, rfl⟩
    rw [← fresh] at run
    rcases ran : start.run write (texts.map Prod.snd) actions with e | ⟨replies, v⟩
    · simp [ran] at run
    simp only [ran, Except.ok.injEq] at run
    subst run
    have begun : protoAt texts q proto .nothing * textsAt texts ≤
        clientAt texts ⟨q, a', ⟨state, []⟩, []⟩ start := by
      rw [fresh]
      refine le_fact_mul rfl (mul_mono le_rfl (le_of_eq ?_))
      rw [applicationAt, aligned, aligned, fact_of rfl, one_mul, mul_one, mul_one]
    rw [nullable]
    refine Spec.known (nonNull_proto.mul_right _) fun nonNull => Spec.neg nonNull ?_
    refine Spec.bind ((run_spec ran).conseq begun fun _ => le_rfl) fun r => ?_
    refine Spec.of_fact fun same => ?_
    refine Spec.conseq ?_ (clientAt_le texts r.2 v) fun _ => le_rfl
    refine Spec.step ampFreeProto_spec rfl fun _ => ?_
    refine Spec.done _ (le_fact_mul (by rw [same]; rfl) (le_of_eq ?_))
    rw [leftOver]
    ac_rfl

/-- A session of whatever actions, with whichever allocations failing and wherever the blocks are
placed, faults on no heap if it does not on values, and has the same replies. Freeing the proto
leaves the heap there was before and next to it what the library forgot and what was not freed,
which is nothing once the application has finished. -/
theorem session_refines (write : WriteHandler U) (texts : List (Ptr × CString))
    (a : BlockAllocator) (keyData : Buffer (256 + 1)) (valData : Buffer (256 * 256)) (state : U)
    (actions : List Action) (h : Blocks Block) (rest : Assertion Block)
    {x : Option (List Reply × LibAmp.Client U)}
    (run : LibAmp.runSession write (texts.map Prod.snd) a.serves keyData valData state actions =
      .ok x)
    (named : (textsAt texts * rest) h) :
    ∃ h', runSession write texts a keyData valData state actions h = .ok (x.map Prod.fst, h') ∧
      (leftOver x * (textsAt texts * rest)) h' ∧
      ((∀ r ∈ x, Finished r.2) →
        (forgotten ((x.map fun r => r.2.gone).getD .nothing) * (textsAt texts * rest)) h') := by
  obtain ⟨replies, h', ran, own⟩ := runSession_spec run rest h named
  rw [mul_assoc] at own
  obtain ⟨rfl, left⟩ := fact_mul.1 own
  have left : (leftOver x * (textsAt texts * rest)) h' := by
    rwa [mul_comm (textsAt texts), mul_assoc] at left
  exact ⟨h', ran, left, fun finished => mul_mono (leftOver_le_of_finished finished) le_rfl h' left⟩

/-- A call is cancelled, and all objects are freed within its callback. -/
theorem session_refines_cancel :
    runSession (fun _ _ _ state => (0, state)) [] Allocator.bump (.zeros _) (.zeros _) ()
        [.newBox, .boxOp .box 0 (.put ⟨[107], by decide⟩ [1] 1 (by decide)), .setWriteHandler 7 8,
          .call ⟨[99], by decide⟩ (some 0) 3 4, .cancel 1, .release .result 0, .release .packet 1,
          .release .box 0, .returns] ∅ =
      .ok (some [.made true, .box (.code 0), .nothing, .called 0 (some 1), .callback 3 4, .nothing,
        .nothing, .nothing, .code 0], ∅) := by
  obtain ⟨actions, given⟩ : ∃ actions : List Action, actions = [.newBox,
      .boxOp .box 0 (.put ⟨[107], by decide⟩ [1] 1 (by decide)), .setWriteHandler 7 8,
      .call ⟨[99], by decide⟩ (some 0) 3 4, .cancel 1, .release .result 0, .release .packet 1,
      .release .box 0, .returns] := ⟨_, rfl⟩
  have evaluated : (LibAmp.runSession (fun _ _ _ state => (0, state)) [] plenty (.zeros _)
      (.zeros _) () actions).toOption.join.map (fun r => (r.1, r.2.app.objects.isEmpty,
        r.2.frames.isEmpty, r.2.gone.callbacks.isEmpty, r.2.gone.responders.isEmpty,
        r.2.gone.boxes.isEmpty)) =
      some ([.made true, .box (.code 0), .nothing, .called 0 (some 1), .callback 3 4, .nothing,
        .nothing, .nothing, .code 0], true, true, true, true, true) := by
    rw [given]
    decide +kernel
  rw [← given]
  rcases run : LibAmp.runSession (fun _ _ _ state => (0, state)) [] plenty (.zeros _) (.zeros _) ()
    actions with e | _ | ⟨replies, c⟩ <;> rw [run] at evaluated
  · cases evaluated
  · cases evaluated
  simp only [Except.toOption, Option.join_some, Option.map_some, Option.some.injEq, Prod.mk.injEq,
    List.isEmpty_iff] at evaluated
  obtain ⟨rfl, objects, frames, callbacks, responders, boxes⟩ := evaluated
  obtain ⟨h', ran, -, own⟩ := session_refines (fun _ _ _ state => (0, state)) [] Allocator.bump
    (.zeros _) (.zeros _) () actions ∅ 1 run ((one_mul (1 : Assertion Block)).symm ▸ rfl)
  have own := own (by rintro _ ⟨⟩; exact ⟨objects, frames⟩)
  have nothing : c.gone = .nothing := Forgotten.ext callbacks responders boxes
  rw [Option.map_some, Option.getD_some, nothing, forgotten_nothing, one_mul] at own
  have empty : h' = ∅ := by rwa [textsAt, List.map_nil, List.prod_nil, one_mul] at own
  rw [ran, empty]
  rfl

end LibAmp.OnHeap
