import LibAmp.DispatchOnHeap
import LibAmp.Resumption

/-!
# Consuming bytes on the heap (`amp_consume_bytes`)

The loop that parses and dispatches, up to where user code is to run. The bytes that are left and
the callback to be freed wait for it to return.

## Main results

* `consumeUpTo_spec`, `resume_spec` — consuming on the heap is consuming on values.
-/

namespace LibAmp.OnHeap

open Heap Linked Separation Assertion
open WhileLoop (Turn)

variable {U : Type}

/-! ## The function -/

/-- Where `amp_consume_bytes` has got to. -/
inductive Pumped where
  | done (ret : Int)
  | stopped (invocation : Invocation) (rest : List UInt8) (bytesConsumed : Int)

/-- The locals of `amp_consume_bytes`: the allocator, the application, the buffer from `idx` on
and `bytesConsumed`. -/
abbrev ConsumeState (U : Type) := BlockAllocator × Application U Ptr × List UInt8 × Int

abbrev ConsumeReturn (U : Type) := Pumped × BlockAllocator × Application U Ptr

/-- `proto->error = code`. -/
def setError (proto : Ptr) (code : AmpError) : Program Unit := do
  let p ← readAs viewProto proto
  write proto (.proto { p with error := code })

/-- `proto->error`. -/
def protoError (proto : Ptr) : Program AmpError := do
  let p ← readAs viewProto proto
  return p.error

/-- `proto->box = amp_new_box()`, whatever was there. -/
def renewBox (a : BlockAllocator) (proto : Ptr) : Program BlockAllocator := do
  let (box, a) ← ampNewBox a .box
  let p ← readAs viewProto proto
  write proto (.proto { p with box := box })
  return a

/-- `amp_parse_box(proto, proto->box, &bytesConsumed, buf, len)`. -/
def parseOn (a : BlockAllocator) (proto : Ptr) (bytesConsumed : Int) (buf : List UInt8) :
    Program ParseReturn := do
  let p ← readAs viewProto proto
  ampParseBox a proto p.box bytesConsumed buf

/-- A full box is dispatched, up to where user code is to run. -/
def dispatchUpTo (handler : WriteHandler U) (proto : Ptr) (s : ConsumeState U) :
    Program (Turn (ConsumeState U) (ConsumeReturn U)) := do
  let (a, app, rest, bytesConsumed) := s
  let (flow, a, app) ← dispatchBox handler a proto app
  match flow with
  | .ret code =>
    setError proto code
    if code ≠ 0 then return .leave (.done code, a, app)
    else
      let a ← renewBox a proto
      return .again (a, app, rest, bytesConsumed)
  | .invoke invocation => return .leave (.stopped invocation rest bytesConsumed, a, app)

def pumpTurn (handler : WriteHandler U) (proto : Ptr) (s : ConsumeState U) :
    Program (Turn (ConsumeState U) (ConsumeReturn U)) := do
  let (a, app, rest, bytesConsumed) := s
  match rest with
  | [] => return .leave (.done 0, a, app)
  | _ :: _ =>
    let (status, bytesConsumed, a) ← parseOn a proto bytesConsumed rest
    let rest := rest.drop bytesConsumed.toNat
    if status ≠ 0 then dispatchUpTo handler proto (a, app, rest, bytesConsumed)
    else
      let error ← protoError proto
      if error ≠ 0 then return .leave (.done error, a, app)
      else return .again (a, app, rest, bytesConsumed)

def pump (handler : WriteHandler U) (proto : Ptr) (s : ConsumeState U) :
    Program (ConsumeReturn U) :=
  iterate (pumpTurn handler proto) (s.2.2.1.length + 1) s

/-- `amp_consume_bytes` up to user code. -/
def consumeUpTo (handler : WriteHandler U) (a : BlockAllocator) (proto : Ptr)
    (app : Application U Ptr) (buf : List UInt8) : Program (ConsumeReturn U) := do
  let error ← protoError proto
  if error ≠ 0 then return (.done ampProtoError, a, app)
  else pump handler proto (a, app, buf, 0)

/-- The user code has returned: `dispatch_box` returns 0, and the loop goes on. -/
def resume (handler : WriteHandler U) (a : BlockAllocator) (proto : Ptr)
    (app : Application U Ptr) (rest : List UInt8) (bytesConsumed : Int) :
    Program (ConsumeReturn U) := do
  setError proto 0
  let a ← renewBox a proto
  pump handler proto (a, app, rest, bytesConsumed)

/-! ## What the locals stand for -/

/-- The proto of a consumer whose handler is that of the library. -/
def protoOf {σ : Type} (now : Consumer (Dispatcher × σ)) : AmpProto where
  toParser := now.proto
  toDispatcher := now.own.1

/-- The proto, the command names and the application. -/
def consumerAt (texts : List (Ptr × CString)) (q : Ptr) (gone : Forgotten)
    (now : Consumer (Dispatcher × Application U Object)) (a : BlockAllocator)
    (app : Application U Ptr) : Assertion Block :=
  fact (a.serves = now.mem) *
    (protoAt texts q (protoOf now) gone * (textsAt texts * applicationAt app now.own.2))

def consuming (texts : List (Ptr × CString)) (q : Ptr) (gone : Forgotten)
    (t : ConsumeLoop (Dispatcher × Application U Object)) (s : ConsumeState U) : Assertion Block :=
  fact (s.2.2 = (t.rest, t.bytesConsumed)) * consumerAt texts q gone t.now s.1 s.2.1

def pumpedAt (texts : List (Ptr × CString)) (q : Ptr) (gone : Forgotten) :
    LibAmp.Pumped (Application U Object) → ConsumeReturn U → Assertion Block
  | .done ret now, (.done ret', a, app) => fact (ret' = ret) * consumerAt texts q gone now a app
  | .stopped v t, (.stopped invocation rest bytesConsumed, a, app) =>
    fact ((rest, bytesConsumed) = (t.rest, t.bytesConsumed)) *
      (ownsInvocation invocation v * consumerAt texts q gone t.now a app)
  | _, _ => fact False

section Consuming

variable {texts : List (Ptr × CString)} {q : Ptr} {proto : AmpProto} {gone : Forgotten}
  {app : Application U Ptr} {handler : WriteHandler U}
  {t : ConsumeLoop (Dispatcher × Application U Object)}

theorem protoError_returns {P : Assertion Block} (part : protoAt texts q proto gone ∣ P) :
    Returns P (protoError q) proto.error := by
  refine Returns.of_dvd (Returns.of_iSup fun p => Returns.of_fact fun holds => ?_) part
  have error : p.error = proto.error := congrArg Parser.error holds.parser
  rw [← error]
  exact (Returns.readAs viewProto (dvd_mul_right _ _) rfl).bind (Returns.ret _ _)

theorem setError_spec (code : AmpError) :
    Spec (protoAt texts q proto gone) (setError q code) fun _ =>
      protoAt texts q { proto with error := code } gone := by
  rw [← mul_one (protoAt texts q proto gone)]
  refine Spec.of_protoAt fun p holds => ?_
  rw [mul_one]
  refine Spec.look (Returns.readAs viewProto (dvd_mul_right _ _) rfl) ?_
  refine ((Spec.write q (Block.proto p) _).frame _).post fun _ => ?_
  have holds' : ProtoStruct.Holds { p with error := code } { proto with error := code } :=
    ⟨congrArg (fun fields : Parser => { fields with error := code }) holds.parser,
      holds.lastAskKey, holds.write⟩
  exact le_protoAt holds'

/-- A box that is still in the proto is forgotten. -/
theorem renewBox_spec (a : BlockAllocator) :
    Spec (protoAt texts q proto gone) (renewBox a q) fun a' =>
      fact (a'.serves = (LibAmp.ampNewBox .box a.serves).2) *
        protoAt texts q { proto with box := (LibAmp.ampNewBox .box a.serves).1 }
          (gone.addBoxes proto.box.toList) := by
  refine ampNewBox_spec fun box a' _ mem => ?_
  refine Spec.rearrange (mul_comm _ _) (Spec.of_protoAt fun p holds => ?_)
  refine Spec.look (Returns.readAs viewProto (dvd_mul_right _ _) rfl) ?_
  refine Spec.step (Spec.write q (Block.proto p) (.proto { p with box := box })) rfl fun _ => ?_
  refine Spec.done _ (le_fact_mul mem ?_)
  have lost : nullable ownsBox p.box proto.box ≤ scattered ownsBox proto.box.toList := by
    cases proto.box with
    | none => exact fun _ own => own.2
    | some b => exact (le_somewhere ownsBox p.box b).trans (le_of_eq (mul_one _).symm)
  have holds' : ProtoStruct.Holds { p with box := box }
      { proto with box := (LibAmp.ampNewBox .box a.serves).1 } :=
    ⟨congrArg (fun fields : Parser =>
      { fields with box := (LibAmp.ampNewBox .box a.serves).1 }) holds.parser,
      holds.lastAskKey, holds.write⟩
  refine le_trans ?_ (le_protoAt holds')
  rw [partsAt, partsAt, Forgotten.addBoxes, scattered_append]
  refine le_trans (mul_mono le_rfl (mul_mono (mul_mono lost le_rfl) le_rfl)) (le_of_eq ?_)
  dsimp only
  ac_rfl

theorem ProtoStruct.withParser_of_holds {p : ProtoStruct} (holds : p.Holds proto) :
    p.withParser proto.toParser = p := by
  rw [← holds.parser]
  rfl

variable (proto) in
/-- Parsing on the heap, with the box of the proto. -/
theorem parseOn_spec (a : BlockAllocator) {n : Int} {buf : List UInt8} {r : ParseResult}
    (run : LibAmp.ampParseBox a.serves proto.toParser proto.box n buf = .ok r) :
    Spec (protoAt texts q proto gone) (parseOn a q n buf) fun s =>
      fact (s.1 = r.status ∧ s.2.1 = r.bytesConsumed ∧ s.2.2.serves = r.mem) *
        protoAt texts q { proto with toParser := { r.proto with box := r.box } } gone := by
  rw [← mul_one (protoAt texts q proto gone)]
  refine Spec.of_protoAt fun p holds => ?_
  rw [mul_one]
  refine Spec.look (Returns.readAs viewProto (dvd_mul_right _ _) rfl) ?_
  have parse := ampParseBox_spec q p.box p a run
  rw [ProtoStruct.withParser_of_holds holds] at parse
  refine Spec.finish parse (F := callbacksAt p.outstandingRequests proto.outstandingRequests
    gone.callbacks * (respondersAt texts p.responders proto.responders gone.responders *
      scattered ownsBox gone.boxes)) ?_ fun s => ?_
  · rw [partsAt]
    ac_rfl
  have holds' : (p.withParser r.proto).Holds
      { proto with toParser := { r.proto with box := r.box } } :=
    ⟨rfl, holds.lastAskKey, holds.write⟩
  rw [parsed, mul_assoc]
  refine mul_mono le_rfl (le_trans (le_of_eq ?_) (le_protoAt holds'))
  rw [partsAt, mul_assoc]
  rfl

end Consuming

/-! ## The loop -/

section Pumping

variable {texts : List (Ptr × CString)} {q : Ptr} {gone : Forgotten} {handler : WriteHandler U}
  {t : ConsumeLoop (Dispatcher × Application U Object)} {s : ConsumeState U}

theorem not_fine {code : Int} (bad : code ≠ 0) :
    ¬ (LibAmp.Flow.ret code = .ret 0 ∨ ∃ v, LibAmp.Flow.ret code = .invoke v) := by
  rintro (same | ⟨v, same⟩)
  · exact bad (LibAmp.Flow.ret.inj same)
  · cases same

/-- A box that was dispatched without an error is not in the proto any more. -/
theorem box_of_processed {σ : Type} {write : WriteHandler σ} {d : Dispatcher}
    {held : Option AmpBox} {mem : Mem} {box : AmpBox} {own : σ} {p : Progressed σ}
    (run : LibAmp.ampProcessFullPacket write d held mem box own = .ok p)
    (fine : p.flow = .ret 0 ∨ ∃ v, p.flow = .invoke v) : p.box = none := by
  unfold LibAmp.ampProcessFullPacket at run
  split at run
  · obtain rfl := Except.ok.inj run
    exact absurd fine (not_fine (by decide))
  split at run
  · split at run
    · next err _ made =>
      obtain rfl := Except.ok.inj run
      exact absurd fine (not_fine (ampNewRequestFromBox_error made))
    · split at run
      · obtain rfl := Except.ok.inj run
        rfl
      split at run
      · obtain rfl := Except.ok.inj run
        rfl
      split at run
      · cases run
      · obtain rfl := Except.ok.inj run
        rfl
  split at run
  · split at run
    · next err _ made =>
      obtain rfl := Except.ok.inj run
      exact absurd fine (not_fine (ampNewResponseFromBox_error made))
    · obtain rfl := Except.ok.inj run
      exact (completeCall_kept ..).1
  split at run
  · split at run
    · next err _ made =>
      obtain rfl := Except.ok.inj run
      exact absurd fine (not_fine (ampNewErrorFromBox_error made))
    · obtain rfl := Except.ok.inj run
      exact (completeCall_kept ..).1
  · obtain rfl := Except.ok.inj run
    exact absurd fine (not_fine (by decide))

/-- A new box for the bytes to come; a box that is still in the proto is forgotten. -/
theorem nextBox_spec {a : BlockAllocator} {app : Application U Ptr} {rest : List UInt8} {n : Int}
    (mem : a.serves = t.now.mem) (locals : (rest, n) = (t.rest, t.bytesConsumed)) :
    Spec (protoAt texts q { protoOf t.now with error := 0 } gone *
        (textsAt texts * applicationAt app t.now.own.2))
      (renewBox a q) fun a' =>
        consuming texts q (gone.addBoxes t.now.proto.box.toList) (nextBox t)
          (a', app, rest, n) := by
  refine Spec.finish (renewBox_spec a) rfl fun a' => ?_
  rw [mul_assoc, mem]
  exact le_fact_mul locals le_rfl

theorem dispatchUpTo_spec {next : Turn (ConsumeLoop (Dispatcher × Application U Object))
      (LibAmp.Pumped (Application U Object))}
    (run : LibAmp.dispatchUpTo (keeping handler) t = .ok next) :
    Spec (consuming texts q gone t s) (dispatchUpTo handler q s)
      (turned (consuming texts q gone) (pumpedAt texts q gone) next) := by
  obtain ⟨a, app, rest, n⟩ := s
  refine Spec.of_fact fun locals => Spec.of_fact fun mem => ?_
  dsimp only at locals mem
  unfold LibAmp.dispatchUpTo at run
  cases held : t.now.proto.box with
  | none => simp [held] at run
  | some box =>
    cases processed : LibAmp.ampProcessFullPacket (keeping handler) t.now.own.1 (some box)
        t.now.mem box t.now.own.2 with
    | error e => simp [held, processed] at run
    | ok v =>
      simp only [held, processed] at run
      have processed' : LibAmp.ampProcessFullPacket (keeping handler) t.now.own.1 t.now.proto.box
          a.serves box t.now.own.2 = .ok v := by rw [held, mem, processed]
      refine Spec.step (dispatchBox_spec texts q (protoOf t.now) gone app a held processed')
        (mul_one _).symm fun r => ?_
      obtain ⟨flow, a', app'⟩ := r
      rw [mul_one]
      refine Spec.of_fact fun mem' => ?_
      dsimp only at mem' ⊢
      obtain ⟨u, after⟩ : ∃ u : ConsumeLoop (Dispatcher × Application U Object), u = { t with
        now := ⟨{ t.now.proto with box := v.box }, v.mem, (v.proto, v.own)⟩ } := ⟨_, rfl⟩
      have same : Progressed.toProto v (protoOf t.now) = protoOf u.now := by rw [after]; rfl
      have own : v.own = u.now.own.2 := by rw [after]
      have mem'' : a'.serves = u.now.mem := by rw [mem', after]
      have locals' : (rest, n) = (u.rest, u.bytesConsumed) := by rw [locals, after]
      rw [← after] at run
      rw [same, own]
      cases reached : v.flow with
      | ret code =>
        simp only [reached, Except.ok.injEq] at run
        cases flow with
        | invoke i => exact Spec.of_fact False.elim
        | ret code' =>
          refine Spec.of_fact ?_
          rintro rfl
          refine Spec.step (setError_spec code') rfl fun _ => ?_
          by_cases bad : code' ≠ 0
          · rw [LibAmp.afterDispatch, if_pos bad] at run
            subst run
            exact Spec.pos bad (Spec.done _ (le_fact_mul rfl (le_fact_mul mem'' le_rfl)))
          · rw [LibAmp.afterDispatch, if_neg bad] at run
            subst run
            obtain rfl := not_not.1 bad
            have noBox : u.now.proto.box = none := by
              rw [after]
              exact box_of_processed processed (.inl reached)
            refine Spec.neg bad (Spec.bind (nextBox_spec mem'' locals') fun a' => ?_)
            rw [noBox]
            exact Spec.done _ le_rfl
      | invoke invocation =>
        simp only [reached, Except.ok.injEq] at run
        subst run
        cases flow with
        | ret code' => exact Spec.of_fact False.elim
        | invoke i =>
          exact Spec.done _ (le_fact_mul locals' (mul_mono le_rfl (le_fact_mul mem'' le_rfl)))

/-- One turn of the loop. -/
theorem pumpTurn_spec {next : Turn (ConsumeLoop (Dispatcher × Application U Object))
      (LibAmp.Pumped (Application U Object))}
    (run : LibAmp.pumpTurn (keeping handler) t = .ok next) :
    Spec (consuming texts q gone t s) (pumpTurn handler q s)
      (turned (consuming texts q gone) (pumpedAt texts q gone) next) := by
  obtain ⟨a, app, rest, n⟩ := s
  refine Spec.of_fact fun locals => Spec.of_fact fun mem => ?_
  obtain ⟨rfl, rfl⟩ := Prod.mk.inj locals
  dsimp only at mem
  unfold LibAmp.pumpTurn at run
  unfold pumpTurn
  rcases bytes : t.rest with _ | ⟨c, more⟩ <;> rw [bytes] at run
  · obtain rfl := Except.ok.inj run
    exact Spec.done _ (le_fact_mul rfl (le_fact_mul mem le_rfl))
  dsimp only at run ⊢
  cases parsed : LibAmp.ampParseBox t.now.mem t.now.proto t.now.proto.box t.bytesConsumed
      (c :: more) with
  | error e => simp [parsed] at run
  | ok r =>
    simp only [parsed] at run
    rw [← mem] at parsed
    refine Spec.step (parseOn_spec (protoOf t.now) a parsed) rfl fun x => ?_
    obtain ⟨status, n', a'⟩ := x
    rw [mul_assoc]
    refine Spec.of_fact ?_
    rintro ⟨rfl, rfl, mem'⟩
    obtain ⟨u, after⟩ : ∃ u : ConsumeLoop (Dispatcher × Application U Object), u =
        { now := ⟨{ r.proto with box := r.box }, r.mem, t.now.own⟩
          rest := (c :: more).drop r.bytesConsumed.toNat
          bytesConsumed := r.bytesConsumed } := ⟨_, rfl⟩
    have same : { protoOf t.now with toParser := { r.proto with box := r.box } } =
        protoOf u.now := by rw [after]; rfl
    have own : t.now.own.2 = u.now.own.2 := by rw [after]
    have mem'' : a'.serves = u.now.mem := by rw [mem', after]
    have locals' : ((c :: more).drop r.bytesConsumed.toNat, r.bytesConsumed) =
        (u.rest, u.bytesConsumed) := by rw [after]
    have error : r.proto.error = u.now.proto.error := by rw [after]
    rw [same, own]
    by_cases full : r.status ≠ 0
    · rw [if_pos full, ← after] at run
      refine Spec.pos full ((dispatchUpTo_spec run).conseq ?_ fun _ => le_rfl)
      exact le_fact_mul locals' (le_fact_mul mem'' le_rfl)
    rw [if_neg full] at run
    refine Spec.neg full ?_
    refine Spec.look (protoError_returns (dvd_mul_right _ _)) ?_
    by_cases bad : r.proto.error ≠ 0
    · rw [if_pos bad] at run
      obtain rfl := Except.ok.inj run
      refine Spec.pos (error ▸ bad) (Spec.done _ (le_fact_mul error.symm ?_))
      rw [after] at mem'' ⊢
      exact le_fact_mul mem'' le_rfl
    · rw [if_neg bad, ← after] at run
      obtain rfl := Except.ok.inj run
      exact Spec.neg (error ▸ bad) (Spec.done _ (le_fact_mul locals' (le_fact_mul mem'' le_rfl)))

theorem pump_spec {v : LibAmp.Pumped (Application U Object)}
    (run : LibAmp.pump (keeping handler) t = .ok v) :
    Spec (consuming texts q gone t s) (pump handler q s) (pumpedAt texts q gone v) := by
  refine Spec.of_fact fun locals => ?_
  have fuel : s.2.2.1.length = t.rest.length := by rw [locals]
  rw [← one_mul (consumerAt texts q gone t.now s.1 s.2.1), ← fact_of locals, pump, fuel]
  exact Spec.simulate (I := consuming texts q gone) (Q := pumpedAt texts q gone)
    (fun _ _ _ run => pumpTurn_spec run) run

/-- Consuming bytes on the heap, up to user code. -/
theorem consumeUpTo_spec {a : BlockAllocator} {app : Application U Ptr} {buf : List UInt8}
    {now : Consumer (Dispatcher × Application U Object)} {v : LibAmp.Pumped (Application U Object)}
    (run : LibAmp.consumeUpTo (keeping handler) now buf = .ok v) :
    Spec (consumerAt texts q gone now a app) (consumeUpTo handler a q app buf)
      (pumpedAt texts q gone v) := by
  unfold LibAmp.consumeUpTo at run
  refine Spec.of_fact fun mem => ?_
  refine Spec.look (protoError_returns (dvd_mul_right _ _)) ?_
  by_cases bad : now.proto.error ≠ 0
  · rw [if_pos bad] at run
    obtain rfl := Except.ok.inj run
    exact Spec.pos bad (Spec.done _ (le_fact_mul rfl (le_fact_mul mem le_rfl)))
  · rw [if_neg bad] at run
    exact Spec.neg bad ((pump_spec run).conseq (le_fact_mul rfl (le_fact_mul mem le_rfl))
      fun _ => le_rfl)

/-- Going on after user code has returned. -/
theorem resume_spec {a : BlockAllocator} {app : Application U Ptr}
    {v : LibAmp.Pumped (Application U Object)}
    (run : LibAmp.resume (keeping handler) t = .ok v) :
    Spec (consumerAt texts q gone t.now a app)
      (resume handler a q app t.rest t.bytesConsumed)
      (pumpedAt texts q (gone.addBoxes t.now.proto.box.toList) v) := by
  refine Spec.of_fact fun mem => ?_
  refine Spec.step (setError_spec 0) rfl fun _ => ?_
  exact Spec.bind (nextBox_spec mem rfl) fun a' => pump_spec run

end Pumping

end LibAmp.OnHeap
