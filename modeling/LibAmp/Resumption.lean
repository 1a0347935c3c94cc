import LibAmp.ConsumeSpec
import LibAmp.Dispatch

/-!
# Consuming up to user code

`amp_consume_bytes` comes back to its caller only after the user code it runs. Here it stops where
user code is to run and is resumed after it, so that user code may do anything in between.

## Main definitions

* `consumeUpTo`, `resume` — `amp_consume_bytes` up to user code, and from there on.

## Main results

* `consume_served` — with the user code run in between this is `amp_consume_bytes`.
-/

namespace LibAmp

open WhileLoop (Turn)

variable {U : Type}

/-- Where `amp_consume_bytes` has got to: it returns, or it runs user code with bytes left. -/
inductive Pumped (U : Type) where
  | done (ret : Int) (now : Consumer (Dispatcher × U))
  | stopped (invocation : Invocation) (s : ConsumeLoop (Dispatcher × U))

/-- `dispatch_box` has returned 0: start on a new box, whether there is memory for it or not. -/
def nextBox {σ : Type} (s : ConsumeLoop σ) : ConsumeLoop σ :=
  let (box, mem) := ampNewBox .box s.now.mem
  { s with now := ⟨{ s.now.proto with error := 0, box := box }, mem, s.now.own⟩ }

/-- `dispatch_box` has returned. -/
def afterDispatch (code : Int) (s : ConsumeLoop (Dispatcher × U)) :
    Turn (ConsumeLoop (Dispatcher × U)) (Pumped U) :=
  if code ≠ 0 then .leave (.done code ⟨{ s.now.proto with error := code }, s.now.mem, s.now.own⟩)
  else .again (nextBox s)

/-- A full box is dispatched, up to where user code is to run. -/
def dispatchUpTo (write : WriteHandler U) (s : ConsumeLoop (Dispatcher × U)) :
    Except Fault (Turn (ConsumeLoop (Dispatcher × U)) (Pumped U)) :=
  match s.now.proto.box with
  | none => .error .nullDereference
  | some box =>
    match ampProcessFullPacket write s.now.own.1 s.now.proto.box s.now.mem box s.now.own.2 with
    | .error e => .error e
    | .ok p =>
      let s : ConsumeLoop (Dispatcher × U) :=
        { s with now := ⟨{ s.now.proto with box := p.box }, p.mem, (p.proto, p.own)⟩ }
      match p.flow with
      | .ret code => .ok (afterDispatch code s)
      | .invoke invocation => .ok (.leave (.stopped invocation s))

/-- One turn of the loop of `amp_consume_bytes`, up to where user code is to run. -/
def pumpTurn (write : WriteHandler U) (s : ConsumeLoop (Dispatcher × U)) :
    Except Fault (Turn (ConsumeLoop (Dispatcher × U)) (Pumped U)) :=
  match s.rest with
  | [] => .ok (.leave (.done 0 s.now))
  | _ :: _ =>
    match ampParseBox s.now.mem s.now.proto s.now.proto.box s.bytesConsumed s.rest with
    | .error e => .error e
    | .ok r =>
      let s : ConsumeLoop (Dispatcher × U) :=
        { now := ⟨{ r.proto with box := r.box }, r.mem, s.now.own⟩
          rest := s.rest.drop r.bytesConsumed.toNat
          bytesConsumed := r.bytesConsumed }
      if r.status ≠ 0 then dispatchUpTo write s
      else if s.now.proto.error ≠ 0 then .ok (.leave (.done s.now.proto.error s.now))
      else .ok (.again s)

def pump (write : WriteHandler U) (s : ConsumeLoop (Dispatcher × U)) : Except Fault (Pumped U) :=
  WhileLoop.run .outOfFuel (pumpTurn write) (s.rest.length + 1) s

/-- `amp_consume_bytes` up to user code. -/
def consumeUpTo (write : WriteHandler U) (now : Consumer (Dispatcher × U)) (buf : List UInt8) :
    Except Fault (Pumped U) :=
  if now.proto.error ≠ 0 then .ok (.done ampProtoError now) else pump write ⟨now, buf, 0⟩

/-- The user code has returned, and so does `dispatch_box`. -/
def resume (write : WriteHandler U) (s : ConsumeLoop (Dispatcher × U)) :
    Except Fault (Pumped U) :=
  pump write (nextBox s)

/-- The user code runs wherever `amp_consume_bytes` has stopped, until that returns. -/
inductive Served (write : WriteHandler U) (user : UserCode U) :
    Pumped U → Int × Consumer (Dispatcher × U) → Prop where
  | done (ret : Int) (now : Consumer (Dispatcher × U)) :
    Served write user (.done ret now) (ret, now)
  | stopped {invocation : Invocation} {s : ConsumeLoop (Dispatcher × U)} {proto : Dispatcher}
      {mem : Mem} {own : U} {p : Pumped U} {x : Int × Consumer (Dispatcher × U)}
      (runs : user invocation s.now.own.1 s.now.mem s.now.own.2 = .ok (proto, mem, own))
      (resumed : resume write { s with now := ⟨s.now.proto, mem, (proto, own)⟩ } = .ok p)
      (rest : Served write user p x) : Served write user (.stopped invocation s) x

/-- A turn with the user code run that it has stopped for. -/
def served (user : UserCode U) : Turn (ConsumeLoop (Dispatcher × U)) (Pumped U) →
    Except Fault (Turn (ConsumeLoop (Dispatcher × U)) (Int × Consumer (Dispatcher × U)))
  | .again t => .ok (.again t)
  | .leave (.done ret now) => .ok (.leave (ret, now))
  | .leave (.stopped invocation t) =>
    match user invocation t.now.own.1 t.now.mem t.now.own.2 with
    | .error e => .error e
    | .ok (proto, mem, own) =>
      .ok (.again (nextBox { t with now := ⟨t.now.proto, mem, (proto, own)⟩ }))

section Served

variable {write : WriteHandler U} {user : UserCode U} {s t : ConsumeLoop (Dispatcher × U)}

/-- What `dispatch_box` with user code in it does where the one that stops does something. -/
theorem dispatchTurn_of_dispatchUpTo {turn : Turn (ConsumeLoop (Dispatcher × U)) (Pumped U)}
    (pumped : dispatchUpTo write s = .ok turn) :
    dispatchTurn (libraryDispatch write user) s = served user turn := by
  unfold dispatchUpTo at pumped
  unfold dispatchTurn libraryDispatch
  cases held : s.now.proto.box with
  | none => simp [held] at pumped
  | some box =>
    cases processed : ampProcessFullPacket write s.now.own.1 (some box) s.now.mem box
        s.now.own.2 with
    | error e => simp [held, processed] at pumped
    | ok p =>
      simp only [held, processed] at pumped
      dsimp only
      rw [processed]
      cases flow : p.flow with
      | ret code =>
        simp only [flow, Except.ok.injEq] at pumped
        obtain rfl := pumped
        unfold afterDispatch
        by_cases bad : code ≠ 0
        · simp only [flow]
          rw [if_pos bad, if_pos bad]
          rfl
        · obtain rfl := not_not.1 bad
          simp only [flow]
          rfl
      | invoke invocation =>
        simp only [flow, Except.ok.injEq] at pumped
        obtain rfl := pumped
        simp only [flow, served]
        rcases user invocation p.proto p.mem p.own with e | ⟨proto, mem, own⟩ <;> rfl

variable (user) in
/-- The same for a whole turn of the loop. -/
theorem consumeTurn_of_pumpTurn {turn : Turn (ConsumeLoop (Dispatcher × U)) (Pumped U)}
    (pumped : pumpTurn write s = .ok turn) :
    consumeTurn (libraryDispatch write user) s = served user turn := by
  unfold pumpTurn at pumped
  unfold consumeTurn
  rcases bytes : s.rest with _ | ⟨c, rest⟩ <;> rw [bytes] at pumped
  · obtain rfl := Except.ok.inj pumped
    rfl
  dsimp only at pumped ⊢
  cases parsed : ampParseBox s.now.mem s.now.proto s.now.proto.box s.bytesConsumed (c :: rest) with
  | error e => simp [parsed] at pumped
  | ok r =>
    simp only [parsed] at pumped ⊢
    by_cases full : r.status ≠ 0
    · rw [if_pos full] at pumped ⊢
      exact dispatchTurn_of_dispatchUpTo pumped
    · rw [if_neg full] at pumped ⊢
      by_cases bad : r.proto.error ≠ 0
      · rw [if_pos bad] at pumped ⊢
        obtain rfl := Except.ok.inj pumped
        rfl
      · rw [if_neg bad] at pumped ⊢
        obtain rfl := Except.ok.inj pumped
        rfl

/-- A fault before any user code is a fault of `amp_consume_bytes`. -/
theorem consumeTurn_of_pumpTurn_error {e : Fault} (pumped : pumpTurn write s = .error e) :
    consumeTurn (libraryDispatch write user) s = .error e := by
  unfold pumpTurn at pumped
  unfold consumeTurn
  rcases bytes : s.rest with _ | ⟨c, rest⟩ <;> rw [bytes] at pumped
  · cases pumped
  dsimp only at pumped ⊢
  cases parsed : ampParseBox s.now.mem s.now.proto s.now.proto.box s.bytesConsumed (c :: rest) with
  | error e' =>
    simp only [parsed] at pumped ⊢
    rw [Except.error.inj pumped]
  | ok r =>
    simp only [parsed] at pumped ⊢
    by_cases full : r.status ≠ 0
    · rw [if_pos full] at pumped ⊢
      unfold dispatchUpTo at pumped
      unfold dispatchTurn libraryDispatch
      cases held : r.box with
      | none =>
        simp only [held] at pumped ⊢
        rw [Except.error.inj pumped]
      | some box =>
        cases processed : ampProcessFullPacket write s.now.own.1 (some box) r.mem box
            s.now.own.2 with
        | error e' =>
          simp only [held, processed] at pumped ⊢
          rw [Except.error.inj pumped]
        | ok p =>
          cases flow : p.flow <;> simp [held, processed, flow] at pumped
    · rw [if_neg full] at pumped
      by_cases bad : r.proto.error ≠ 0
      · rw [if_pos bad] at pumped
        cases pumped
      · rw [if_neg bad] at pumped
        cases pumped

/-- Bytes are decoded from where a turn that goes round again has left off, and there are fewer. -/
theorem Represents.turned {d : Decoder (Dispatcher × U)} (rep : Represents s.now d)
    (again : consumeTurn (libraryDispatch write user) s = .ok (.again t)) :
    (∃ d', Represents t.now d') ∧ t.rest.length < s.rest.length := by
  have inv : s.Inv (libraryDispatch write user) (d.run (libraryDispatch write user) s.rest) :=
    ⟨d, rep, rfl⟩
  have step := consumeTurn_spec inv
  rw [again] at step
  obtain ⟨⟨d', rep', -⟩, fewer⟩ := step
  exact ⟨⟨d', rep'⟩, fewer⟩

theorem pump_served {d : Decoder (Dispatcher × U)} (rep : Represents s.now d) {fuel : Nat}
    {x : Int × Consumer (Dispatcher × U)}
    (run : WhileLoop.run .outOfFuel (consumeTurn (libraryDispatch write user)) fuel s = .ok x) :
    ∃ p, pump write s = .ok p ∧ Served write user p x := by
  induction fuel generalizing s d with
  | zero => simp [WhileLoop.run] at run
  | succ fuel ih =>
    rw [WhileLoop.run] at run
    rcases pumped : pumpTurn write s with e | t | ⟨ret, now⟩ | ⟨invocation, t⟩
    · rw [consumeTurn_of_pumpTurn_error pumped] at run
      cases run
    · have same := consumeTurn_of_pumpTurn user pumped
      obtain ⟨⟨d', rep'⟩, fewer⟩ := rep.turned same
      rw [same] at run
      obtain ⟨p, rest, served⟩ := ih rep' run
      refine ⟨p, ?_, served⟩
      rw [pump, WhileLoop.run, pumped]
      refine WhileLoop.run_of_measure (fun s => s.rest.length)
        (fun s => ∃ d : Decoder (Dispatcher × U), Represents s.now d) ?_ ⟨d', rep'⟩ rest fewer
      rintro s t ⟨d, rep⟩ again
      exact rep.turned (consumeTurn_of_pumpTurn user again)
    · rw [consumeTurn_of_pumpTurn user pumped] at run
      obtain rfl : (ret, now) = x := Except.ok.inj run
      refine ⟨.done ret now, ?_, .done ret now⟩
      rw [pump, WhileLoop.run, pumped]
    · have same := consumeTurn_of_pumpTurn user pumped
      rw [same] at run
      rcases runs : user invocation t.now.own.1 t.now.mem t.now.own.2 with e | ⟨proto, mem, own⟩
      · simp [served, runs] at run
      · simp only [served, runs] at run same
        obtain ⟨⟨d', rep'⟩, -⟩ := rep.turned same
        obtain ⟨p, resumed, served⟩ := ih rep' run
        refine ⟨.stopped invocation t, ?_, .stopped runs resumed served⟩
        rw [pump, WhileLoop.run, pumped]

/-- With the user code run in between, consuming up to user code is `amp_consume_bytes`. -/
theorem consume_served {d : Decoder (Dispatcher × U)} {now : Consumer (Dispatcher × U)}
    (rep : Represents now d) {buf : List UInt8} {x : Int × Consumer (Dispatcher × U)}
    (run : ampConsumeBytes (libraryDispatch write user) now buf = .ok x) :
    ∃ p, consumeUpTo write now buf = .ok p ∧ Served write user p x := by
  unfold ampConsumeBytes at run
  unfold consumeUpTo
  rw [if_neg (not_not.2 rep.noError)] at run ⊢
  exact pump_served rep run

end Served

end LibAmp
