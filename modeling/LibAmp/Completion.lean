import LibAmp.CallSpec

/-!
# The two completion paths

An answer and an error name the call they complete by the same bytes, but `_answer` is read with
`amp_get_uint` and `_error` with `amp_get_int`. The two agree on the values of 0 to `INT_MAX` and
on those that neither of them reads (`error_path_agrees_iff`).
-/

namespace LibAmp

variable {U : Type} {write : WriteHandler U} {proto : Dispatcher} {value : List UInt8}

/-! ## Boxes with one special key -/

def specialKeys : List CString :=
  [Key.command, Key.ask, Key.answer, Key.error, Key.errorCode, Key.errorDescr]

/-- The only special key of the box is `key`, with the given value. -/
structure AmpBox.OnlySpecial (box : AmpBox) (key : CString) (value : List UInt8) : Prop where
  wf : box.WF
  lookup : box.toMap.lookup key = some value
  others : ∀ k ∈ specialKeys, k ≠ key → k ∉ box.toMap

theorem AmpBox.onlySpecial_single {key : CString}
    (storable : Storable key value) : (single key value).OnlySpecial key value := by
  obtain ⟨wf, map⟩ := wf_single storable
  refine ⟨wf, by rw [map, Finmap.lookup_insert], ?_⟩
  intro k special hne
  rw [map, Finmap.mem_insert, not_or]
  exact ⟨hne, Finmap.notMem_empty⟩

theorem buftoll_askBytes (key : UInt32) : buftoll (askBytes key) = .ok key.toNat := by
  have range := key.toNat_lt
  rw [askBytes, snprintf_decimal, buftoll_decimal (by simp only [llongMax]; omega)]

/-! ## What completing a call shows -/

/-- The callback that is invoked. -/
def Progressed.selected (p : Progressed U) : Option Callback :=
  match p.flow with
  | .invoke (.callback cb _) => some cb
  | _ => none

/-- What `amp_consume_bytes` stores in `proto->error`, once user code has run. -/
def Progressed.fatal (p : Progressed U) : Int :=
  match p.flow with
  | .ret code => code
  | .invoke _ => 0

/-- What should hold of an error and an answer with the same value: they select the same
callback and agree on everything but the reason it is given. In particular a value that is the
ask key of a call completes that call, and a value that can be none completes nothing. -/
structure PathsAgree (proto : Dispatcher) (value : List UInt8) (onError onAnswer : Progressed U) :
    Prop where
  selected : onError.selected = onAnswer.selected
  proto_eq : onError.proto = onAnswer.proto
  fatal : onError.fatal = 0 ↔ onAnswer.fatal = 0
  reasonError : ∀ cb result, onError.flow = .invoke (.callback cb result) →
    ∃ error, result = .error error
  reasonAnswer : ∀ cb result, onAnswer.flow = .invoke (.callback cb result) →
    ∃ response, result = .success response
  echoed : ∀ key cb, value = askBytes key → tableGet proto.outstandingRequests key = some cb →
    onError.selected = some cb ∧ onError.proto = proto.popped key ∧ onError.fatal = 0
  outside : (∀ key : UInt32, buftoll value ≠ .ok key.toNat) →
    onError.selected = none ∧ onAnswer.selected = none

/-! ## Where the paths agree -/

variable (proto) in
/-- Completing a call selects what is stored under its key, and pops it. -/
theorem completeCall_shows (own : U) (askKey : Int32) (result : AmpResult) :
    (completeCall proto none plenty own askKey result 0).selected =
        tableGet proto.outstandingRequests askKey.toUInt32 ∧
      (completeCall proto none plenty own askKey result 0).proto = proto.popped askKey.toUInt32 ∧
      (completeCall proto none plenty own askKey result 0).fatal = 0 ∧
      ∀ cb given, (completeCall proto none plenty own askKey result 0).flow =
        .invoke (.callback cb given) → given = result := by
  rw [completeCall_plenty]
  cases tableGet proto.outstandingRequests askKey.toUInt32 with
  | none => exact ⟨rfl, rfl, rfl, nofun⟩
  | some cb =>
    refine ⟨rfl, rfl, rfl, ?_⟩
    intro cb' given h
    injection h with h
    injection h with _ h
    exact h.symm

/-- The keys two bounds give a value are the same if it lies in both or in neither. -/
theorem errorKey_eq_answerKey
    (h : ∀ t, buftoll value = .ok t → 0 ≤ t ∧ t ≤ intMax ∨ t < intMin ∨ uintMax < t) :
    errorKey value = answerKey value := by
  rcases ht : buftoll value with err | t
  · simp only [errorKey, answerKey, keyWithin, ht]
  · have inside := h t ht
    simp only [intMax, intMin, uintMax] at inside
    rcases inside with both | neither
    · rw [errorKey, answerKey, keyWithin_inside ht (by simp only [intMin, intMax]; omega),
        keyWithin_inside ht (by simp only [uintMax]; omega)]
    · rw [errorKey, answerKey, keyWithin_outside ht (by simp only [intMin, intMax]; omega),
        keyWithin_outside ht (by simp only [uintMax]; omega)]

/-- Outside these bounds just one of the two paths reads the value. -/
theorem isSome_errorKey_ne {t : Int} (ht : buftoll value = .ok t)
    (h : ¬ (0 ≤ t ∧ t ≤ intMax ∨ t < intMin ∨ uintMax < t)) :
    (errorKey value).isSome ≠ (answerKey value).isSome := by
  simp only [intMax, intMin, uintMax] at h
  by_cases neg : t < 0
  · rw [errorKey, answerKey, keyWithin_inside ht (by simp only [intMin, intMax]; omega),
      keyWithin_outside ht (by simp only [uintMax]; omega)]
    simp
  · rw [errorKey, answerKey, keyWithin_outside ht (by simp only [intMin, intMax]; omega),
      keyWithin_inside ht (by simp only [uintMax]; omega)]
    simp

theorem answerKey_askBytes (key : UInt32) : answerKey (askBytes key) = some key := by
  have range := key.toNat_lt
  have back : UInt32.ofInt key.toNat = key := by
    apply UInt32.toNat_inj.1
    rw [UInt32.ofInt, UInt32.toNat_ofNat']
    omega
  rw [answerKey, keyWithin_inside (buftoll_askBytes key) (by simp only [uintMax]; omega), back]

/-- A key that is read from a value is the value. -/
theorem exists_buftoll_of_answerKey {key : UInt32} (h : answerKey value = some key) :
    buftoll value = .ok key.toNat := by
  rcases ht : buftoll value with err | t
  · simp only [answerKey, keyWithin, ht] at h
    cases h
  · by_cases range : 0 ≤ t ∧ t ≤ uintMax
    · rw [answerKey, keyWithin_inside ht range, Option.some.injEq] at h
      subst h
      simp only [uintMax] at range
      congr 1
      rw [UInt32.ofInt, UInt32.toNat_ofNat']
      omega
    · rw [answerKey, keyWithin_outside ht range] at h
      cases h

/-- Two refusals agree, if the value is no ask key. -/
theorem PathsAgree.of_refused {errE errA : AmpError} (codeE : errE ≠ 0) (codeA : errA ≠ 0)
    (none : answerKey value = none) (heldE heldA : Option AmpBox) (own : U) :
    PathsAgree proto value ⟨.ret errE, proto, heldE, plenty, own⟩
      ⟨.ret errA, proto, heldA, plenty, own⟩ := by
  refine ⟨rfl, rfl, by simp [Progressed.fatal, codeE, codeA], nofun, nofun, ?_, ?_⟩
  · rintro key cb rfl -
    rw [answerKey_askBytes] at none
    cases none
  · intro outside
    exact ⟨rfl, rfl⟩

/-- Two completions under the key of the value agree. -/
theorem PathsAgree.of_completed {key : UInt32} (read : answerKey value = some key)
    (error : RemoteError) (response : AmpResponse) (own : U) :
    PathsAgree proto value (completeCall proto none plenty own key.toInt32 (.error error) 0)
      (completeCall proto none plenty own key.toInt32 (.success response) 0) := by
  obtain ⟨selectedE, protoE, fatalE, givenE⟩ :=
    completeCall_shows proto own key.toInt32 (.error error)
  obtain ⟨selectedA, protoA, fatalA, givenA⟩ :=
    completeCall_shows proto own key.toInt32 (.success response)
  refine ⟨selectedE.trans selectedA.symm, protoE.trans protoA.symm, by simp [fatalE, fatalA],
    ?_, ?_, ?_, ?_⟩
  · intro cb result hflow
    exact ⟨_, givenE cb result hflow⟩
  · intro cb result hflow
    exact ⟨_, givenA cb result hflow⟩
  · rintro key' cb rfl found
    obtain rfl : key' = key := by
      rw [answerKey_askBytes] at read
      exact Option.some.inj read
    exact ⟨selectedE.trans found, protoE, fatalE⟩
  · intro outside
    exact absurd (exists_buftoll_of_answerKey read) (outside key)

/-- For every proto and every value, an `_error` box and an `_answer` box with this value are
treated alike exactly if the value does not decode to a number that only one of `int` and
`unsigned int` can hold. -/
theorem error_path_agrees_iff (write : WriteHandler U) (proto : Dispatcher)
    {value : List UInt8} {errorBox answerBox : AmpBox}
    (herror : errorBox.OnlySpecial Key.error value)
    (hanswer : answerBox.OnlySpecial Key.answer value) (own : U) :
    ∃ onError onAnswer,
      ampProcessFullPacket write proto (some errorBox) plenty errorBox own = .ok onError ∧
      ampProcessFullPacket write proto (some answerBox) plenty answerBox own = .ok onAnswer ∧
      (PathsAgree proto value onError onAnswer ↔
        ∀ t, buftoll value = .ok t → 0 ≤ t ∧ t ≤ intMax ∨ t < intMin ∨ uintMax < t) := by
  have error := process_error write proto herror.wf (some errorBox) own
    (herror.others _ (by decide) (by decide)) (herror.others _ (by decide) (by decide))
    herror.lookup
  have answer := process_answer write proto hanswer.wf (some answerBox) own
    (hanswer.others _ (by decide) (by decide)) hanswer.lookup
  -- where only one path reads the value, one of them is fatal
  rcases error with ⟨keyE, errE, codeE, runE⟩ | ⟨kE, keyE, runE⟩ <;>
    rcases answer with ⟨keyA, errA, codeA, runA⟩ | ⟨kA, keyA, runA⟩ <;>
    refine ⟨_, _, runE, runA, ?_, ?_⟩
  · intro agree t ht
    by_contra out
    exact isSome_errorKey_ne ht out (by rw [keyE, keyA])
  · intro inside
    exact .of_refused codeE codeA keyA _ _ own
  · intro agree
    exact absurd (agree.fatal.2 (completeCall_shows proto own _ _).2.2.1) codeE
  · intro inside
    rw [errorKey_eq_answerKey inside, keyA] at keyE
    cases keyE
  · intro agree
    exact absurd (agree.fatal.1 (completeCall_shows proto own _ _).2.2.1) codeA
  · intro inside
    rw [errorKey_eq_answerKey inside, keyA] at keyE
    cases keyE
  · intro agree t ht
    by_contra out
    exact isSome_errorKey_ne ht out (by rw [keyE, keyA]; rfl)
  · intro inside
    rw [errorKey_eq_answerKey inside, keyA] at keyE
    have same : kA = kE.toUInt32 := Option.some.inj keyE
    subst same
    exact .of_completed keyA _ _ own

/-! ## Two values -/

/-- A dispatcher once a call was made when the last ask key was `last`. -/
def waitingAfter (proto : Dispatcher) (last : UInt32) : Dispatcher :=
  { proto with lastAskKey := last }.called 0 0

/-- The ask key 7, sent back both ways. -/
theorem error_path_agrees_iff_seven :
    ∃ new onError onAnswer, ampNewProto plenty (.zeros _) (.zeros _) = .ok (some new, plenty) ∧
      ampProcessFullPacket (fun _ _ _ own => (0, own)) (waitingAfter new.toDispatcher 6)
        (some (.single Key.error (ascii "7"))) plenty (.single Key.error (ascii "7")) () =
          .ok onError ∧
      ampProcessFullPacket (fun _ _ _ own => (0, own)) (waitingAfter new.toDispatcher 6)
        (some (.single Key.answer (ascii "7"))) plenty (.single Key.answer (ascii "7")) () =
          .ok onAnswer ∧
      PathsAgree (waitingAfter new.toDispatcher 6) (ascii "7") onError onAnswer := by
  obtain ⟨new, hnew⟩ := ampNewProto_plenty (.zeros _) (.zeros _)
  have sent (key : CString) (storable : Storable key (ascii "7")) :
      (AmpBox.single key (ascii "7")).OnlySpecial key (ascii "7") :=
    AmpBox.onlySpecial_single storable
  obtain ⟨onError, onAnswer, runE, runA, iff⟩ := error_path_agrees_iff
    (fun _ _ _ own => (0, own)) (waitingAfter new.toDispatcher 6) (sent Key.error (by decide))
    (sent Key.answer (by decide)) ()
  refine ⟨new, onError, onAnswer, hnew, runE, runA, iff.2 fun t ht => .inl ?_⟩
  obtain rfl : (7 : Int) = t := by injection ht
  decide

/-- The largest ask key: its answer completes the call, its error is fatal. -/
theorem error_path_rejects_max :
    ∃ new onError onAnswer, ampNewProto plenty (.zeros _) (.zeros _) = .ok (some new, plenty) ∧
      ampProcessFullPacket (fun _ _ _ own => (0, own))
        (waitingAfter new.toDispatcher 4294967294)
        (some (.single Key.error (ascii "4294967295"))) plenty
        (.single Key.error (ascii "4294967295")) () = .ok onError ∧
      ampProcessFullPacket (fun _ _ _ own => (0, own))
        (waitingAfter new.toDispatcher 4294967294)
        (some (.single Key.answer (ascii "4294967295"))) plenty
        (.single Key.answer (ascii "4294967295")) () = .ok onAnswer ∧
      onError.selected = none ∧ onError.fatal = ampOutOfRange ∧
      onAnswer.selected = some ⟨-1, 0, 0⟩ ∧ onAnswer.fatal = 0 ∧
      ¬ PathsAgree (waitingAfter new.toDispatcher 4294967294) (ascii "4294967295") onError
        onAnswer := by
  refine ⟨_, _, _, rfl, rfl, rfl, rfl, rfl, rfl, rfl, ?_⟩
  intro agree
  exact absurd agree.selected (by decide)

end LibAmp
