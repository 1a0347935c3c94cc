import LibAmp.ParserSpec

/-!
# Consuming bytes

`amp_consume_bytes` on an error-free proto decodes its buffer (`Represents.consume`), and feeding
chunks decodes their concatenation (`Represents.feedUntilError`). A proto in an error state does
nothing any more.
-/

namespace LibAmp

open WhileLoop (Turn Outcome TurnOutcome)

variable {σ : Type} {dispatch : DispatchBox σ} {now : Consumer σ} {d : Decoder σ}

/-! ## One call -/

variable (dispatch) in
/-- `amp_parse_box` ends, and leaves the decoder where its bytes lead. -/
theorem Represents.parseBox (rep : Represents now d) (buf : List UInt8) (bytesConsumed : Int) :
    Outcome (fun e => d.run dispatch buf = .error e)
      (fun r => r.Left dispatch d.own buf (d.run dispatch buf))
      (ampParseBox now.mem now.proto now.proto.box bytesConsumed buf) := by
  refine WhileLoop.run_spec ParseLoop.measure
    (fun s => ∃ phase, s.Inv dispatch d.own buf (d.run dispatch buf) phase)
    (fun s ⟨phase, inv⟩ => parseTurn_spec inv bytesConsumed) _ _ ⟨d.phase, ?_⟩ ?_
  · refine ⟨rep.noError, rep.atPhase, le_rfl, by simp, by simp, ?_⟩
    rw [ParseLoop.decoder, rep.box, rep.mem]
  · simp only [ParseLoop.measure]
    split <;> omega

/-- The invariant of the loop: decoding what is left gives the result asked for. -/
def ConsumeLoop.Inv (dispatch : DispatchBox σ) (target : Except Fault (Progress σ))
    (s : ConsumeLoop σ) : Prop :=
  ∃ d, Represents s.now d ∧ d.run dispatch s.rest = target

theorem consumeTurn_spec {target : Except Fault (Progress σ)} {s : ConsumeLoop σ}
    (inv : s.Inv dispatch target) :
    Outcome (fun e => target = .error e)
      (TurnOutcome (fun t => t.Inv dispatch target ∧ t.rest.length < s.rest.length)
        (fun r => ∃ p, target = .ok p ∧ Shows r p)) (consumeTurn dispatch s) := by
  obtain ⟨d, rep, meets⟩ := inv
  unfold consumeTurn
  rcases hrest : s.rest with _ | ⟨c, tail⟩
  · rw [hrest] at meets
    exact ⟨.ongoing d, meets.symm, rfl, rep⟩
  have parsed := rep.parseBox dispatch (c :: tail) s.bytesConsumed
  rw [hrest] at meets
  rw [meets] at parsed
  simp only
  rcases hparse : ampParseBox s.now.mem s.now.proto s.now.proto.box s.bytesConsumed (c :: tail)
    with e | r <;> rw [hparse] at parsed
  · exact parsed
  have shorter := parsed.consumed
  rcases parsed.cases with ⟨hstatus, herror, hphase, hpos, hfinish⟩ | ⟨hstatus, herror, hfail⟩ |
    ⟨hstatus, herror, hall, phase, hphase, hongoing⟩
  · simp only [hstatus, ne_eq, one_ne_zero, not_false_eq_true, ↓reduceIte, dispatchTurn]
    unfold Decoder.finishBox at hfinish
    simp only at hfinish
    rw [show s.now.own = d.own from rep.own]
    rcases hd : dispatch r.mem r.box d.own with e | done <;> rw [hd] at hfinish
    · exact hfinish.symm
    by_cases hret : done.ret = 0
    · simp only [hret, ne_eq, not_true_eq_false, ↓reduceIte, Progress.andThen_ongoing] at hfinish ⊢
      refine ⟨⟨_, ⟨rfl, hphase.frame _ _, rfl, rfl, rfl⟩, hfinish⟩, ?_⟩
      simp only [List.length_drop, List.length_cons] at shorter ⊢
      omega
    · simp only [hret, ne_eq, not_false_eq_true, ↓reduceIte, Progress.andThen_failed] at hfinish ⊢
      exact ⟨_, hfinish.symm, rfl, hret, rfl, rfl, rfl⟩
  · simp only [hstatus, herror, ne_eq, not_true_eq_false, not_false_eq_true, ↓reduceIte]
    exact ⟨_, hfail, rfl, herror, rfl, rfl, rep.own⟩
  · simp only [hstatus, herror, ne_eq, not_true_eq_false, ↓reduceIte]
    refine ⟨⟨⟨phase, r.box, r.mem, d.own⟩, ⟨rfl, hphase.frame _ _, rfl, rfl, rep.own⟩, ?_⟩, ?_⟩
    · rw [hongoing, hall, Int.toNat_natCast, List.drop_length]
      rfl
    · rw [hall, Int.toNat_natCast, List.drop_length]
      exact Nat.succ_pos _

variable (dispatch) in
/-- A call on an error-free proto decodes its buffer, byte by byte. -/
theorem Represents.consume (rep : Represents now d) (buf : List UInt8) :
    Outcome (fun e => d.run dispatch buf = .error e)
      (fun r => ∃ p, d.run dispatch buf = .ok p ∧ Shows r p)
      (ampConsumeBytes dispatch now buf) := by
  unfold ampConsumeBytes
  simp only [rep.noError, ne_eq, not_true_eq_false, ↓reduceIte]
  exact WhileLoop.run_spec (fun s => s.rest.length)
    (fun s => s.Inv dispatch (d.run dispatch buf)) (fun s inv => consumeTurn_spec inv) _ _
    ⟨d, rep, rfl⟩ (Nat.lt_succ_self _)

variable (dispatch) in
/-- The same, read from the decoder's side. -/
theorem Represents.consume_eq (rep : Represents now d) (buf : List UInt8) :
    match d.run dispatch buf with
    | .error e => ampConsumeBytes dispatch now buf = .error e
    | .ok p => ∃ r, ampConsumeBytes dispatch now buf = .ok r ∧ Shows r p := by
  have consumed := rep.consume dispatch buf
  rcases hc : ampConsumeBytes dispatch now buf with e | r <;> rw [hc] at consumed
  · rw [WhileLoop.outcome_error] at consumed
    rw [consumed]
  · obtain ⟨p, hrun, shows⟩ := consumed
    rw [hrun]
    exact ⟨r, rfl, shows⟩

/-- A call runs into a fault exactly if the decoder does. -/
theorem Represents.consume_error_iff (rep : Represents now d) {buf : List UInt8} {e : Fault} :
    ampConsumeBytes dispatch now buf = .error e ↔ d.run dispatch buf = .error e := by
  have same := rep.consume_eq dispatch buf
  cases run : d.run dispatch buf with
  | error e' =>
    rw [run] at same
    have consumed : ampConsumeBytes dispatch now buf = .error e' := same
    rw [consumed]
    exact ⟨fun h => congrArg Except.error (Except.error.inj h),
      fun h => congrArg Except.error (Except.error.inj h)⟩
  | ok p =>
    rw [run] at same
    obtain ⟨r, consumed, -⟩ := same
    rw [consumed]
    exact ⟨nofun, nofun⟩

/-- A latched error makes every further call fail without any effect. -/
theorem ampConsumeBytes_latched (h : now.proto.error ≠ 0) (buf : List UInt8) :
    ampConsumeBytes dispatch now buf = .ok (ampProtoError, now) := by
  rw [ampConsumeBytes, if_pos h]

/-- What holds of a consumer still holds after a call, if it does whenever the loop ends. -/
theorem ampConsumeBytes_left {P : Consumer σ → Prop} (inv : ConsumeLoop σ → Prop)
    {failed : ConsumeLoop σ → Fault → Prop}
    (turn : ∀ s, inv s →
      Outcome (failed s) (TurnOutcome inv (fun r => P r.2)) (consumeTurn dispatch s))
    (holds : P now) {buf : List UInt8} (entry : now.proto.error = 0 → inv ⟨now, buf, 0⟩)
    {ret : Int} {after : Consumer σ} (h : ampConsumeBytes dispatch now buf = .ok (ret, after)) :
    P after := by
  by_cases clean : now.proto.error = 0
  · simp only [ampConsumeBytes, clean, ne_eq, not_true_eq_false, ↓reduceIte] at h
    exact WhileLoop.run_left inv turn (entry clean) h
  · rw [ampConsumeBytes_latched clean] at h
    cases h
    exact holds

/-! ## Chunk after chunk -/

variable (dispatch) in
/-- Feeding chunks decodes their concatenation, wherever it was cut. -/
theorem Represents.feedUntilError (rep : Represents now d) (chunks : List (List UInt8)) :
    match d.run dispatch chunks.flatten with
    | .error e => LibAmp.feedUntilError dispatch now chunks = .error e
    | .ok p => ∃ r, LibAmp.feedUntilError dispatch now chunks = .ok r ∧ Shows r p := by
  induction chunks generalizing now d with
  | nil => exact ⟨_, rfl, rfl, rep⟩
  | cons chunk chunks ih =>
    have first := rep.consume_eq dispatch chunk
    rw [List.flatten_cons, Decoder.run_append]
    rcases hrun : d.run dispatch chunk with e | ⟨d' | ⟨ret, mem, own⟩⟩ <;> rw [hrun] at first
    · simp only [LibAmp.feedUntilError, first, Progress.andThen_error]
    · obtain ⟨⟨ret, now'⟩, hconsume, hret, rep'⟩ := first
      simp only at hret rep'
      simp only [LibAmp.feedUntilError, hconsume, hret, ne_eq, not_true_eq_false, ↓reduceIte,
        Progress.andThen_ongoing]
      exact ih rep'
    · obtain ⟨⟨ret', now'⟩, hconsume, shows⟩ := first
      have hret : ret' = ret ∧ ret ≠ 0 := ⟨shows.1, shows.2.1⟩
      simp only [LibAmp.feedUntilError, hconsume, hret.1, hret.2, ne_eq, not_false_eq_true,
        ↓reduceIte, Progress.andThen_failed]
      exact ⟨_, rfl, rfl, shows.2⟩

/-- As long as the decoder goes on, every chunk is answered with 0. -/
theorem Represents.feed_ongoing (rep : Represents now d) {d' : Decoder σ}
    (chunks : List (List UInt8)) (run : d.run dispatch chunks.flatten = .ok (.ongoing d')) :
    ∃ after, feed dispatch now chunks = .ok (chunks.map fun _ => 0, after) ∧
      Represents after d' := by
  induction chunks generalizing now d with
  | nil =>
    obtain rfl : d = d' := by
      rw [List.flatten_nil, Decoder.run_nil] at run
      injection run with run
      injection run
    exact ⟨now, rfl, rep⟩
  | cons chunk chunks ih =>
    have first := rep.consume_eq dispatch chunk
    rw [List.flatten_cons, Decoder.run_append] at run
    rcases hrun : d.run dispatch chunk with e | d₁ | ⟨ret, mem, own⟩ <;> rw [hrun] at first run
    · cases run
    · obtain ⟨⟨ret, now'⟩, hconsume, hret, rep'⟩ := first
      obtain ⟨after, hfeed, repAfter⟩ := ih rep' run
      refine ⟨after, ?_, repAfter⟩
      simp only at hret hfeed
      simp only [feed, hconsume, hfeed, hret, List.map_cons]
    · simp at run

/-- Every chunk fed to a proto in an error state is refused. -/
theorem feed_latched (h : now.proto.error ≠ 0) (chunks : List (List UInt8)) :
    feed dispatch now chunks = .ok (chunks.map fun _ => ampProtoError, now) := by
  induction chunks with
  | nil => rfl
  | cons chunk chunks ih => simp only [feed, ampConsumeBytes_latched h, ih, List.map_cons]

end LibAmp
