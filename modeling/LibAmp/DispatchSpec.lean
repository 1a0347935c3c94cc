import LibAmp.BoxMap
import LibAmp.Buftoll
import LibAmp.Dispatch

/-!
# What the dispatcher functions do, with memory to spare

One lemma for each exit of `_amp_process_full_packet`, in terms of the finite map of the box, and
the effect of popping a callback on the map of outstanding calls.
-/

namespace LibAmp

variable {U : Type} {write : WriteHandler U} {proto : Dispatcher} {box : AmpBox}

/-! ## Ask keys as values -/

@[simp] theorem toUInt32_toInt32 (k : UInt32) : k.toInt32.toUInt32 = k := rfl

/-- An `int` read from a value stands for the same number modulo 2³². -/
theorem toUInt32_ofInt (t : Int) : (Int32.ofInt t).toUInt32 = UInt32.ofInt t := by
  apply UInt32.toNat_inj.1
  have left : (Int32.ofInt t).toUInt32.toNat = (BitVec.ofInt 32 t).toNat := rfl
  rw [left, BitVec.toNat_ofInt, UInt32.ofInt, UInt32.toNat_ofNat']
  omega

/-- A value that does not decode is reported with an error code. -/
theorem buftoll_error {s : List UInt8} {err : AmpError} (h : buftoll s = .error err) :
    err ≠ 0 := by
  have decode : ampDecodeError ≠ 0 := by decide
  have range : ampOutOfRange ≠ 0 := by decide
  cases buftoll_error_cases h with
  | inl eq => rwa [eq]
  | inr eq => rwa [eq]

/-- The ask key a value stands for, read as an integer within some bounds. -/
def keyWithin (lo hi : Int) (value : List UInt8) : Option UInt32 :=
  match buftoll value with
  | .error _ => none
  | .ok t => if t ≥ lo ∧ t ≤ hi then some (UInt32.ofInt t) else none

theorem keyWithin_inside {lo hi t : Int} {value : List UInt8} (ht : buftoll value = .ok t)
    (h : lo ≤ t ∧ t ≤ hi) : keyWithin lo hi value = some (UInt32.ofInt t) := by
  rw [keyWithin, ht]
  exact if_pos h

theorem keyWithin_outside {lo hi t : Int} {value : List UInt8} (ht : buftoll value = .ok t)
    (h : ¬ (lo ≤ t ∧ t ≤ hi)) : keyWithin lo hi value = none := by
  rw [keyWithin, ht]
  exact if_neg h

/-- The ask key of an answer, an `unsigned int`. -/
def answerKey (value : List UInt8) : Option UInt32 := keyWithin 0 uintMax value

/-- The ask key of an error, an `int` taken modulo 2³². -/
def errorKey (value : List UInt8) : Option UInt32 := keyWithin intMin intMax value

/-! ## Popping a callback -/

/-- The dispatcher with one callback taken out of its table. -/
def Dispatcher.popped (proto : Dispatcher) (key : UInt32) : Dispatcher :=
  { proto with outstandingRequests := (tableRemove proto.outstandingRequests key).2 }

theorem Dispatcher.WF.popped (wf : proto.WF) (key : UInt32) :
    (proto.popped key).WF ∧ (proto.popped key).outstanding = proto.outstanding.erase key :=
  ⟨⟨(wf.outstanding.remove key).2.1, wf.responders⟩, (wf.outstanding.remove key).2.2⟩

theorem Dispatcher.WF.length (wf : proto.WF) :
    tableLength proto.outstandingRequests = proto.outstanding.keys.card :=
  wf.outstanding.length

theorem Dispatcher.WF.get (wf : proto.WF) (key : UInt32) :
    tableGet proto.outstandingRequests key = proto.outstanding.lookup key :=
  wf.outstanding.get key

theorem completeCall_plenty (held : Option AmpBox) (own : U) (askKey : Int32)
    (result : AmpResult) (unknown : Int) :
    completeCall proto held plenty own askKey result unknown =
      match tableGet proto.outstandingRequests askKey.toUInt32 with
      | none => ⟨.ret unknown, proto.popped askKey.toUInt32, held, plenty, own⟩
      | some cb =>
        ⟨.invoke (.callback cb result), proto.popped askKey.toUInt32, held, plenty, own⟩ := by
  simp only [completeCall, ampPopCallback, tableRemove, tableGet, Dispatcher.popped]
  cases proto.outstandingRequests.find askKey.toUInt32 <;> rfl

/-- Popping a key that is not there changes nothing at all. -/
theorem Dispatcher.popped_absent {key : UInt32}
    (absent : tableGet proto.outstandingRequests key = none) : proto.popped key = proto := by
  rw [tableGet, Option.map_eq_none_iff] at absent
  simp only [popped, tableRemove, absent]

/-! ## Reading the special keys -/

theorem ampChunkCopyBuffer_plenty (buf : List UInt8) :
    ampChunkCopyBuffer plenty buf = (some ⟨buf⟩, plenty) := rfl

namespace AmpBox.WF

variable (wf : box.WF)
include wf

theorem hasKey_ne_zero {key : CString} : ampHasKey box key ≠ 0 ↔ key ∈ box.toMap := by
  rw [wf.hasKey]
  split <;> simp [*]

theorem numKeys_ne_zero {key : CString} (h : key ∈ box.toMap) : ampNumKeys box ≠ 0 := by
  rw [wf.numKeys]
  have : 0 < box.toMap.keys.card := Finset.card_pos.2 ⟨key, Finmap.mem_keys.2 h⟩
  omega

/-- A box that something was added to is not empty. -/
theorem add_numKeys {key : CString} {value : List UInt8} (storable : Storable key value) :
    ampNumKeys (box.add key value) ≠ 0 := by
  obtain ⟨-, wf', map⟩ := wf.add storable
  apply numKeys_ne_zero wf'
  rw [map]
  exact Finmap.mem_insert.2 (.inl rfl)

theorem getBytes {key : CString} {value : List UInt8} (h : box.toMap.lookup key = some value) :
    ampGetBytes box key = .ok value := by
  rw [ampGetBytes, wf.getBuf, h]

theorem optionalChunk (key : CString) :
    optionalChunk plenty box key = (.ok ((box.toMap.lookup key).map AmpChunk.mk), plenty) := by
  unfold LibAmp.optionalChunk
  rw [wf.hasKey]
  rcases h : box.toMap.lookup key with _ | value
  · simp [Finmap.lookup_eq_none.1 h]
  · have present : key ∈ box.toMap := Finmap.mem_iff.2 ⟨value, h⟩
    simp [present, wf.getBytes h, ampChunkCopyBuffer_plenty]

theorem narrow {lo hi : Int} {key : CString} {value : List UInt8}
    (h : box.toMap.lookup key = some value) :
    LibAmp.narrow lo hi box key =
      match buftoll value with
      | .error err => .error err
      | .ok t => if t ≥ lo ∧ t ≤ hi then .ok t else .error ampOutOfRange := by
  have read : ampGetBuf box key = .ok value := wf.getBytes h
  rcases ht : buftoll value with err | t <;> simp only [LibAmp.narrow, read, ht]

/-- Reading an integer succeeds exactly if the value stands for a key. -/
theorem narrow_key {lo hi : Int} {key : CString} {value : List UInt8}
    (h : box.toMap.lookup key = some value) :
    (∃ err, err ≠ 0 ∧ LibAmp.narrow lo hi box key = .error err ∧ keyWithin lo hi value = none) ∨
      ∃ t, LibAmp.narrow lo hi box key = .ok t ∧ keyWithin lo hi value = some (UInt32.ofInt t) := by
  rw [wf.narrow h]
  rcases ht : buftoll value with err | t
  · exact .inl ⟨err, buftoll_error ht, rfl, by rw [keyWithin, ht]⟩
  · by_cases range : lo ≤ t ∧ t ≤ hi
    · exact .inr ⟨t, if_pos range, keyWithin_inside ht range⟩
    · exact .inl ⟨ampOutOfRange, by decide, if_neg range, keyWithin_outside ht range⟩

theorem newRequest {value : List UInt8} (h : box.toMap.lookup Key.command = some value) :
    ampNewRequestFromBox plenty box =
      (.ok ⟨⟨value⟩, (box.toMap.lookup Key.ask).map AmpChunk.mk, box⟩, plenty) := by
  simp only [ampNewRequestFromBox, malloc_plenty, wf.getBytes h, ampChunkCopyBuffer_plenty,
    wf.optionalChunk]

end AmpBox.WF

/-! ## Dispatching a box -/

/-- The error handed to the callback of a call. -/
def AmpBox.remoteError (box : AmpBox) (key : Int32) : RemoteError :=
  ⟨key, (box.toMap.lookup Key.errorCode).map AmpChunk.mk,
    (box.toMap.lookup Key.errorDescr).map AmpChunk.mk⟩

section Packets

variable (write proto) (wf : box.WF) (held : Option AmpBox) (own : U)
include wf

/-- A box with `_command` goes to its responder, or is answered with an error. -/
theorem process_command {value : List UInt8}
    (hcommand : box.toMap.lookup Key.command = some value) :
    ampProcessFullPacket write proto held plenty box own =
      match ampGetResponder proto.responders (.ofBytes value) with
      | some responder =>
        .ok ⟨.invoke (.responder responder
          ⟨⟨value⟩, (box.toMap.lookup Key.ask).map AmpChunk.mk, box⟩), proto, none, plenty, own⟩
      | none =>
        match (box.toMap.lookup Key.ask).map AmpChunk.mk with
        | none => .ok ⟨.ret 0, proto, none, plenty, own⟩
        | some askKey =>
          match ampSendUnhandledCommandError write proto plenty ⟨value⟩ askKey own with
          | .error e => .error e
          | .ok w => .ok ⟨.ret w.ret, proto, none, w.mem, w.own⟩ := by
  have present : Key.command ∈ box.toMap := Finmap.mem_iff.2 ⟨value, hcommand⟩
  have nonempty := wf.numKeys_ne_zero present
  have request := wf.newRequest hcommand
  have isCommand := wf.hasKey_ne_zero.2 present
  unfold ampProcessFullPacket
  rcases hfound : ampGetResponder proto.responders (.ofBytes value) with _ | responder
  · rcases hask : (box.toMap.lookup Key.ask).map AmpChunk.mk with _ | askKey
    · simp only [nonempty, isCommand, request, AmpChunk.cstring, hfound, hask, ↓reduceIte, ne_eq,
        not_false_eq_true]
    · rcases hsend : ampSendUnhandledCommandError write proto plenty ⟨value⟩ askKey own with e | w
        <;> simp only [nonempty, isCommand, request, AmpChunk.cstring, hfound, hask, hsend,
          ↓reduceIte, ne_eq, not_false_eq_true]
  · simp only [nonempty, isCommand, request, AmpChunk.cstring, hfound, ↓reduceIte, ne_eq,
      not_false_eq_true]

/-- A box with `_answer` completes the call its value stands for. -/
theorem process_answer {value : List UInt8} (noCommand : Key.command ∉ box.toMap)
    (hanswer : box.toMap.lookup Key.answer = some value) :
    (answerKey value = none ∧ ∃ err, err ≠ 0 ∧
      ampProcessFullPacket write proto held plenty box own =
        .ok ⟨.ret err, proto, held, plenty, own⟩) ∨
    ∃ key, answerKey value = some key ∧
      ampProcessFullPacket write proto held plenty box own =
        .ok (completeCall proto none plenty own key.toInt32 (.success ⟨key, box⟩) 0) := by
  have present : Key.answer ∈ box.toMap := Finmap.mem_iff.2 ⟨value, hanswer⟩
  unfold ampProcessFullPacket ampNewResponseFromBox ampGetUint
  simp only [wf.numKeys_ne_zero present, wf.hasKey_ne_zero, noCommand, present, ↓reduceIte,
    malloc_plenty]
  rcases wf.narrow_key hanswer with ⟨err, code, read, key⟩ | ⟨t, read, key⟩ <;> rw [read]
  · exact .inl ⟨key, err, code, rfl⟩
  · exact .inr ⟨_, key, rfl⟩

/-- A box with `_error` completes the call its value stands for. -/
theorem process_error {value : List UInt8} (noCommand : Key.command ∉ box.toMap)
    (noAnswer : Key.answer ∉ box.toMap) (herror : box.toMap.lookup Key.error = some value) :
    (errorKey value = none ∧ ∃ err, err ≠ 0 ∧
      ampProcessFullPacket write proto held plenty box own =
        .ok ⟨.ret err, proto, held, plenty, own⟩) ∨
    ∃ key : Int32, errorKey value = some key.toUInt32 ∧
      ampProcessFullPacket write proto held plenty box own =
        .ok (completeCall proto none plenty own key (.error (box.remoteError key)) 0) := by
  have present : Key.error ∈ box.toMap := Finmap.mem_iff.2 ⟨value, herror⟩
  unfold ampProcessFullPacket ampNewErrorFromBox ampGetInt
  simp only [wf.numKeys_ne_zero present, wf.hasKey_ne_zero, noCommand, noAnswer, present,
    ↓reduceIte, malloc_plenty, wf.optionalChunk]
  rcases wf.narrow_key herror with ⟨err, code, read, key⟩ | ⟨t, read, key⟩ <;> rw [read]
  · exact .inl ⟨key, err, code, rfl⟩
  · exact .inr ⟨.ofInt t, by rw [toUInt32_ofInt, errorKey, key], rfl⟩

/-- Any other box is an error of the peer. -/
theorem process_other (noCommand : Key.command ∉ box.toMap) (noAnswer : Key.answer ∉ box.toMap)
    (noError : Key.error ∉ box.toMap) :
    ∃ code, code ≠ 0 ∧ ampProcessFullPacket write proto held plenty box own =
      .ok ⟨.ret code, proto, held, plenty, own⟩ := by
  unfold ampProcessFullPacket
  simp only [wf.hasKey_ne_zero, noCommand, noAnswer, noError, ↓reduceIte]
  split
  · exact ⟨ampBoxEmpty, by decide, rfl⟩
  · exact ⟨ampReqKeyMissing, by decide, rfl⟩

end Packets

end LibAmp
