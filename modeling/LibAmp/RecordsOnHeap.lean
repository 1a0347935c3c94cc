import LibAmp.BoxRefines

/-!
# Requests, responses, errors and results on the heap (`amp.c`)

The structs handed to the application, with what they own: a request and a response own the box
they were read from, an error copies what it needs and frees the box. A constructor that fails
frees what it has allocated and leaves the box alone.

## Main definitions

* `ownsBox`, `ownsRequest`, `ownsResponse`, `ownsError`, `ownsResult` — what the structs own.

## Main results

* `ampNewRequestFromBox_spec`, `ampNewResponseFromBox_spec`, `ampNewErrorFromBox_spec`.
* `ampFreeRequest_spec`, `ampFreeResult_spec` — freeing them leaves nothing.
-/

namespace LibAmp.OnHeap

open Heap Linked Separation Assertion

/-! ## Chunks -/

def ampChunkCopyBuffer (a : BlockAllocator) (buf : Ptr) (size : Int) :
    Program (Ptr × BlockAllocator) := do
  let (c, a) ← alloc a .chunk .raw
  if c = 0 then return (0, a)
  else
    let bytes ← readBuf buf size
    write c (.chunk ⟨bytes⟩)
    return (c, a)

def ampFreeChunk (chunk : Ptr) : Program Unit := free chunk

/-- `amp_get_bytes` and a copy of what it finds. -/
def copyValue (a : BlockAllocator) (box : Ptr) (key : CString) :
    Program (Except AmpError Ptr × BlockAllocator) := do
  match ← ampGetBuf box key with
  | .error err => return (.error err, a)
  | .ok (buf, size) =>
    let (c, a) ← ampChunkCopyBuffer a buf size
    if c = 0 then return (.error enomem, a) else return (.ok c, a)

/-- The same for a key that need not be there. -/
def optionalChunk (a : BlockAllocator) (box : Ptr) (key : CString) :
    Program (Except AmpError Ptr × BlockAllocator) := do
  if (← ampHasKey box key) ≠ 0 then copyValue a box key else return (.ok 0, a)

/-! ## Constructors -/

/-- The `error:` label of `_amp_new_request_from_box` and of `_amp_new_error_from_box`. -/
def discard (err : AmpError) (struct chunk chunk2 : Ptr) (a : BlockAllocator) :
    Program (Except AmpError Ptr × BlockAllocator) := do
  free struct
  ampFreeChunk chunk
  ampFreeChunk chunk2
  return (.error err, a)

def ampNewRequestFromBox (a : BlockAllocator) (box : Ptr) :
    Program (Except AmpError Ptr × BlockAllocator) := do
  let (r, a) ← alloc a .request .raw
  if r = 0 then return (.error enomem, a)
  else
    match ← copyValue a box Key.command with
    | (.error err, a) => discard err r 0 0 a
    | (.ok cmdName, a) =>
      match ← optionalChunk a box Key.ask with
      | (.error err, a) => discard err r cmdName 0 a
      | (.ok askKey, a) =>
        write r (.request cmdName askKey box)
        return (.ok r, a)

/-- `amp_get_int` and `amp_get_uint`, for the range of their type. -/
def narrow (lo hi : Int) (box : Ptr) (key : CString) : Program (Except AmpError Int) := do
  match ← ampGetBuf box key with
  | .error err => return .error err
  | .ok (buf, size) =>
    match buftoll (← readBuf buf size) with
    | .error err => return .error err
    | .ok tmp => return if tmp ≥ lo ∧ tmp ≤ hi then .ok tmp else .error ampOutOfRange

def ampGetInt (box : Ptr) (key : CString) : Program (Except AmpError Int32) := do
  return (← narrow intMin intMax box key).map Int32.ofInt

def ampGetUint (box : Ptr) (key : CString) : Program (Except AmpError UInt32) := do
  return (← narrow 0 uintMax box key).map UInt32.ofInt

def ampNewResponseFromBox (a : BlockAllocator) (box : Ptr) :
    Program (Except AmpError Ptr × BlockAllocator) := do
  let (r, a) ← alloc a .response .raw
  if r = 0 then
    free r
    return (.error enomem, a)
  else
    match ← ampGetUint box Key.answer with
    | .error err =>
      free r
      return (.error err, a)
    | .ok key =>
      write r (.response key box)
      return (.ok r, a)

/-- The box is freed, but only if all went well. -/
def ampNewErrorFromBox (a : BlockAllocator) (box : Ptr) :
    Program (Except AmpError Ptr × BlockAllocator) := do
  let (e, a) ← alloc a .error .raw
  if e = 0 then return (.error enomem, a)
  else
    match ← ampGetInt box Key.error with
    | .error err => discard err e 0 0 a
    | .ok key =>
      match ← optionalChunk a box Key.errorCode with
      | (.error err, a) => discard err e 0 0 a
      | (.ok errorCode, a) =>
        match ← optionalChunk a box Key.errorDescr with
        | (.error err, a) => discard err e errorCode 0 a
        | (.ok errorDescr, a) =>
          ampFreeBox box
          write e (.error key errorCode errorDescr)
          return (.ok e, a)

/-- `_amp_new_result_with_response`, `_amp_new_result_with_error` and
`_amp_new_result_with_cancel`. -/
def ampNewResult (a : BlockAllocator) (reason : ResultReason) (response error : Ptr) :
    Program (Except AmpError Ptr × BlockAllocator) := do
  let (r, a) ← alloc a .result .raw
  if r = 0 then return (.error enomem, a)
  else
    write r (.result reason response error)
    return (.ok r, a)

/-! ## Destructors -/

def ampFreeRequest (request : Ptr) : Program Unit := do
  let (command, askKey, args) ← readAs viewRequest request
  ampFreeChunk command
  unlessNull ampFreeChunk askKey
  unlessNull ampFreeBox args
  free request

def ampFreeResponse (response : Ptr) : Program Unit := do
  let (_, args) ← readAs viewResponse response
  ampFreeBox args
  free response

def ampFreeError (error : Ptr) : Program Unit := do
  let (_, errorCode, errorDescr) ← readAs viewError error
  unlessNull ampFreeChunk errorCode
  unlessNull ampFreeChunk errorDescr
  free error

def ampFreeResult (result : Ptr) : Program Unit := do
  let (_, response, error) ← readAs viewResult result
  unlessNull ampFreeResponse response
  unlessNull ampFreeError error
  free result

/-! ## What the structs own -/

def ownsBox (q : Ptr) (box : AmpBox) : Assertion Block :=
  ⨆ b : LocatedBox, fact (b.toBox = box) * boxAt q b

def ownsChunk (q : Ptr) (c : AmpChunk) : Assertion Block := cell q (.chunk c)

def ownsRequest (q : Ptr) (r : AmpRequest) : Assertion Block :=
  ⨆ command, ⨆ askKey, ⨆ args, cell q (.request command askKey args) *
    (ownsChunk command r.command * (nullable ownsChunk askKey r.askKey * ownsBox args r.args))

def ownsResponse (q : Ptr) (r : AmpResponse) : Assertion Block :=
  ⨆ args, cell q (.response r.answerKey args) * ownsBox args r.args

def ownsError (q : Ptr) (e : RemoteError) : Assertion Block :=
  ⨆ code, ⨆ descr, cell q (.error e.answerKey code descr) *
    (nullable ownsChunk code e.errorCode * nullable ownsChunk descr e.errorDescr)

/-- `r->reason`. -/
def reasonOf : AmpResult → ResultReason
  | .success _ => .success
  | .error _ => .error
  | .cancel => .cancel

def responseOf : AmpResult → Option AmpResponse
  | .success r => some r
  | _ => none

def errorOf : AmpResult → Option RemoteError
  | .error e => some e
  | _ => none

/-- What the two pointers of a result lead to. -/
def payload (response error : Ptr) (r : AmpResult) : Assertion Block :=
  nullable ownsResponse response (responseOf r) * nullable ownsError error (errorOf r)

def ownsResult (q : Ptr) (r : AmpResult) : Assertion Block :=
  ⨆ response, ⨆ error, cell q (.result (reasonOf r) response error) * payload response error r

/-! ## A box, wherever its blocks are -/

section Box

variable {q : Ptr} {box : AmpBox} {key : CString} {α : Type} {P F : Assertion Block}

theorem Returns.of_ownsBox {c : Program α} {r : α} (part : ownsBox q box ∣ P)
    (looks : ∀ b : LocatedBox, b.toBox = box → Returns (boxAt q b) c r) : Returns P c r := by
  refine Returns.of_dvd ?_ part
  exact Returns.of_iSup fun b => Returns.of_fact fun same => looks b same

theorem Spec.of_ownsBox {c : Program α} {Q : α → Assertion Block}
    (spec : ∀ b : LocatedBox, b.toBox = box → Spec (boxAt q b * F) c Q) :
    Spec (ownsBox q box * F) c Q := by
  simp only [ownsBox, iSup_mul, mul_assoc]
  exact Spec.of_iSup fun b => Spec.of_fact fun same => spec b same

theorem le_ownsBox (q : Ptr) (b : LocatedBox) : boxAt q b ≤ ownsBox q b.toBox :=
  le_iSup_of_le b (le_fact_mul rfl le_rfl)

theorem nonNull_box : NonNull q (ownsBox q box) :=
  NonNull.iSup fun _ => ((nonNull_cell q _).mul_right _).mul_left _

theorem hasKey_returns (part : ownsBox q box ∣ P) :
    Returns P (ampHasKey q key) (LibAmp.ampHasKey box key) := by
  refine Returns.of_ownsBox part ?_
  rintro b rfl
  exact ampHasKey_returns

theorem numKeys_returns (part : ownsBox q box ∣ P) :
    Returns P (ampNumKeys q) (LibAmp.ampNumKeys box) := by
  refine Returns.of_ownsBox part ?_
  rintro b rfl
  exact ampNumKeys_returns

theorem narrow_returns (part : ownsBox q box ∣ P) (lo hi : Int) :
    Returns P (narrow lo hi q key) (LibAmp.narrow lo hi box key) := by
  refine Returns.of_ownsBox part ?_
  rintro b rfl
  refine ampGetBuf_returns.bind ?_
  rw [LibAmp.narrow]
  rcases view : b.view key with err | ⟨buf, size⟩
  · rw [view_error view]
    exact Returns.ret _ _
  · obtain ⟨e, mem, -, rfl, rfl, get⟩ := view_entry view
    rw [get]
    refine (readBuf_returns mem).bind ?_
    dsimp only
    cases buftoll e.ghost.value <;> exact Returns.ret _ _

theorem getInt_returns (part : ownsBox q box ∣ P) :
    Returns P (ampGetInt q key) (LibAmp.ampGetInt box key) :=
  (narrow_returns part intMin intMax).bind (Returns.ret _ _)

theorem getUint_returns (part : ownsBox q box ∣ P) :
    Returns P (ampGetUint q key) (LibAmp.ampGetUint box key) :=
  (narrow_returns part 0 uintMax).bind (Returns.ret _ _)

/-- `copyValue` on values. -/
def copied (mem : Mem) (box : AmpBox) (key : CString) : Except AmpError AmpChunk × Mem :=
  match LibAmp.ampGetBytes box key with
  | .error err => (.error err, mem)
  | .ok buf =>
    match LibAmp.ampChunkCopyBuffer mem buf with
    | (none, mem) => (.error enomem, mem)
    | (some chunk, mem) => (.ok chunk, mem)

theorem copyValue_spec (a : BlockAllocator) :
    Settles (ownsBox q box) (copyValue a q key) (fun c chunk => ownsChunk c chunk * ownsBox q box)
      (ownsBox q box) (copied a.serves box key) := by
  rw [Settles, ← mul_one (ownsBox q box)]
  refine Spec.of_ownsBox ?_
  rintro b rfl
  rw [mul_one, mul_one]
  refine Spec.look ampGetBuf_returns ?_
  unfold copied LibAmp.ampGetBytes
  rcases view : b.view key with err | ⟨buf, size⟩
  · rw [view_error view]
    exact Settles.failed err (le_ownsBox q b)
  · obtain ⟨e, mem, -, rfl, rfl, get⟩ := view_entry view
    rw [get]
    simp only [ampChunkCopyBuffer, LibAmp.ampChunkCopyBuffer, bind_assoc, ite_bind, pure_bind]
    refine Spec.alloc (fun served c nonNull => Spec.neg nonNull ?_) fun refused => Spec.pos rfl ?_
    · refine Spec.look ((readBuf_returns mem).of_dvd (dvd_mul_left _ _)) ?_
      refine Spec.step (Spec.write c _ _) rfl fun _ => Spec.neg nonNull ?_
      rw [malloc, served]
      exact Settles.done c _ (mul_mono le_rfl (le_ownsBox q b))
    · rw [malloc, refused]
      exact Spec.pos trivial (Settles.failed enomem (le_ownsBox q b))

theorem optionalChunk_present (mem : Mem) (present : LibAmp.ampHasKey box key ≠ 0) :
    LibAmp.optionalChunk mem box key =
      ((copied mem box key).1.map some, (copied mem box key).2) := by
  rw [LibAmp.optionalChunk, if_pos present, copied]
  cases LibAmp.ampGetBytes box key with
  | error err => rfl
  | ok buf =>
    dsimp only
    rcases LibAmp.ampChunkCopyBuffer mem buf with ⟨_ | chunk, mem'⟩ <;> rfl

theorem optionalChunk_spec (a : BlockAllocator) :
    Settles (ownsBox q box) (optionalChunk a q key)
      (fun c chunk => nullable ownsChunk c chunk * ownsBox q box) (ownsBox q box)
      (LibAmp.optionalChunk a.serves box key) := by
  refine Spec.look (hasKey_returns dvd_rfl) ?_
  by_cases present : LibAmp.ampHasKey box key ≠ 0
  · refine Spec.pos present ?_
    simp only [optionalChunk_present a.serves present, settled_map]
    exact copyValue_spec a
  · refine Spec.neg present ?_
    rw [LibAmp.optionalChunk, if_neg present]
    refine Settles.done 0 none (le_of_eq ?_)
    rw [nullable, fact_of rfl, one_mul]

theorem freeBox_spec : Spec (ownsBox q box) (ampFreeBox q) fun _ => 1 :=
  Spec.of_iSup fun b => Spec.of_fact fun _ => ampFreeBox_spec q b

end Box

/-! ## The constructors -/

section Constructors

variable {q : Ptr} {box : AmpBox} {key : CString}

/-- Freeing what was allocated before an error. -/
theorem discard_spec {α : Type} {own : Ptr → α → Assertion Block} {rest : Assertion Block}
    {struct chunk chunk2 : Ptr} {c d : Option AmpChunk} (err : AmpError) (a : BlockAllocator) :
    Settles (cell struct .raw * (nullable ownsChunk chunk c * (nullable ownsChunk chunk2 d * rest)))
      (discard err struct chunk chunk2 a) own rest (.error err, a.serves) := by
  have freed {chunk : Ptr} (c : Option AmpChunk) :
      Spec (nullable ownsChunk chunk c) (ampFreeChunk chunk) fun _ => 1 := by
    cases c with
    | none =>
      rw [nullable, ← mul_one (fact _)]
      refine Spec.of_fact ?_
      rintro rfl
      exact Spec.ret (fun _ => 1) ()
    | some c => exact Spec.free chunk (Block.chunk c)
  refine Spec.step (Spec.free struct Block.raw) rfl fun _ => ?_
  rw [one_mul]
  refine Spec.step (freed c) rfl fun _ => ?_
  rw [one_mul]
  refine Spec.step (freed d) rfl fun _ => ?_
  rw [one_mul]
  exact Settles.failed err le_rfl

theorem null_chunk : nullable ownsChunk 0 none = (1 : Assertion Block) := fact_of rfl

/-- `_amp_new_request_from_box` on values, by its two copies. -/
theorem ampNewRequestFromBox_eq (mem : Mem) :
    LibAmp.ampNewRequestFromBox mem box =
      match malloc .request mem with
      | (false, mem) => (.error enomem, mem)
      | (true, mem) =>
        match copied mem box Key.command with
        | (.error err, mem) => (.error err, mem)
        | (.ok command, mem) =>
          match LibAmp.optionalChunk mem box Key.ask with
          | (.error err, mem) => (.error err, mem)
          | (.ok askKey, mem) => (.ok ⟨command, askKey, box⟩, mem) := by
  rw [LibAmp.ampNewRequestFromBox]
  rcases malloc .request mem with ⟨_ | _, mem⟩
  · rfl
  · dsimp only
    rw [copied]
    cases LibAmp.ampGetBytes box Key.command with
    | error err => rfl
    | ok buf =>
      dsimp only
      rcases LibAmp.ampChunkCopyBuffer mem buf with ⟨_ | chunk, mem'⟩ <;> rfl

theorem ampNewRequestFromBox_spec (a : BlockAllocator) :
    Settles (ownsBox q box) (ampNewRequestFromBox a q) ownsRequest (ownsBox q box)
      (LibAmp.ampNewRequestFromBox a.serves box) := by
  rw [ampNewRequestFromBox_eq]
  refine Spec.alloc (fun served r nonNull => Spec.neg nonNull ?_) fun refused => Spec.pos rfl ?_
  · rw [malloc, served]
    dsimp only
    refine Spec.settle (copyValue_spec (a.drop 1)) (mul_comm _ _) (fun err a' v => ?_)
      fun c command a' v => ?_
    · rw [Allocator.serves_drop] at v
      rw [v]
      refine Spec.rearrange ?_ (discard_spec (c := none) (d := none) err a')
      rw [null_chunk, one_mul, one_mul, mul_comm]
    · rw [Allocator.serves_drop] at v
      rw [v]
      refine Spec.settle (optionalChunk_spec a')
        (F := cell r .raw * ownsChunk c command) (by ac_rfl) (fun err a' v => ?_)
        fun c2 askKey a' v => ?_
      · simp only [v]
        refine Spec.rearrange ?_ (discard_spec (c := some command) (d := none) err a')
        rw [null_chunk, one_mul, nullable]
        ac_rfl
      · simp only [v]
        refine Spec.step (Spec.write r Block.raw (.request c c2 q)) (F := ownsChunk c command *
          (nullable ownsChunk c2 askKey * ownsBox q box)) (by ac_rfl) fun _ => ?_
        refine Settles.done r _ ?_
        exact le_iSup_of_le c (le_iSup_of_le c2 (le_iSup_of_le q le_rfl))
  · rw [malloc, refused]
    exact Settles.failed enomem le_rfl

theorem ampNewResponseFromBox_spec (a : BlockAllocator) :
    Settles (ownsBox q box) (ampNewResponseFromBox a q) ownsResponse (ownsBox q box)
      (LibAmp.ampNewResponseFromBox a.serves box) := by
  unfold LibAmp.ampNewResponseFromBox
  refine Spec.alloc (fun served r nonNull => Spec.neg nonNull ?_) fun refused => Spec.pos rfl ?_
  · rw [malloc, served]
    refine Spec.look (getUint_returns (dvd_mul_left _ _)) ?_
    dsimp only
    cases LibAmp.ampGetUint box Key.answer with
    | error err =>
      refine Spec.step (Spec.free r Block.raw) rfl fun _ => ?_
      exact Settles.failed err (le_of_eq (one_mul _))
    | ok key =>
      refine Spec.step (Spec.write r Block.raw (.response key q)) rfl fun _ => ?_
      exact Settles.done r _ (le_iSup_of_le q le_rfl)
  · rw [malloc, refused]
    refine Spec.look (Returns.free_null _) ?_
    exact Settles.failed enomem le_rfl

theorem ampNewErrorFromBox_spec (a : BlockAllocator) :
    Settles (ownsBox q box) (ampNewErrorFromBox a q) ownsError (ownsBox q box)
      (LibAmp.ampNewErrorFromBox a.serves box) := by
  unfold LibAmp.ampNewErrorFromBox
  refine Spec.alloc (fun served e nonNull => Spec.neg nonNull ?_) fun refused => Spec.pos rfl ?_
  · rw [malloc, served]
    refine Spec.look (getInt_returns (dvd_mul_left _ _)) ?_
    dsimp only
    cases LibAmp.ampGetInt box Key.error with
    | error err =>
      refine Spec.rearrange ?_ (discard_spec (c := none) (d := none) err (a.drop 1))
      rw [null_chunk, one_mul, one_mul]
    | ok key =>
      refine Spec.settle (optionalChunk_spec (a.drop 1)) (mul_comm _ _) (fun err a' v => ?_)
        fun c code a' v => ?_
      · rw [Allocator.serves_drop] at v
        simp only [v]
        refine Spec.rearrange ?_ (discard_spec (c := none) (d := none) err a')
        rw [null_chunk, one_mul, one_mul, mul_comm]
      · rw [Allocator.serves_drop] at v
        simp only [v]
        refine Spec.settle (optionalChunk_spec a') (F := cell e .raw * nullable ownsChunk c code)
          (by ac_rfl) (fun err a' v => ?_) fun c2 descr a' v => ?_
        · simp only [v]
          refine Spec.rearrange ?_ (discard_spec (c := code) (d := none) err a')
          rw [null_chunk, one_mul]
          ac_rfl
        · simp only [v]
          refine Spec.step freeBox_spec (F := cell e .raw * (nullable ownsChunk c code *
            nullable ownsChunk c2 descr)) (by ac_rfl) fun _ => ?_
          rw [one_mul]
          refine Spec.step (Spec.write e Block.raw (.error key c c2)) rfl fun _ => ?_
          refine Settles.done e _ ?_
          exact le_iSup_of_le c (le_iSup_of_le c2 le_rfl)
  · rw [malloc, refused]
    exact Settles.failed enomem le_rfl

/-- Wrapping what a callback is given into a result, on values. -/
def newResult (mem : Mem) (r : AmpResult) : Except AmpError AmpResult × Mem :=
  match malloc .result mem with
  | (false, mem) => (.error enomem, mem)
  | (true, mem) => (.ok r, mem)

theorem ampNewResult_spec (a : BlockAllocator) (r : AmpResult) (response error : Ptr) :
    Settles (payload response error r) (ampNewResult a (reasonOf r) response error) ownsResult
      (payload response error r) (newResult a.serves r) := by
  unfold newResult
  refine Spec.alloc (fun served q nonNull => Spec.neg nonNull ?_) fun refused => Spec.pos rfl ?_
  · rw [malloc, served]
    refine Spec.step (Spec.write q Block.raw (.result (reasonOf r) response error)) rfl fun _ => ?_
    exact Settles.done q r (le_iSup_of_le response (le_iSup_of_le error le_rfl))
  · rw [malloc, refused]
    exact Settles.failed enomem le_rfl

end Constructors

/-! ## The destructors -/

section Destructors

variable {q : Ptr}

theorem nonNull_response (r : AmpResponse) : NonNull q (ownsResponse q r) :=
  NonNull.iSup fun _ => (nonNull_cell q _).mul_right _

theorem nonNull_error (e : RemoteError) : NonNull q (ownsError q e) :=
  NonNull.iSup fun _ => NonNull.iSup fun _ => (nonNull_cell q _).mul_right _

theorem freeChunk_spec (c : AmpChunk) : Spec (ownsChunk q c) (ampFreeChunk q) fun _ => 1 :=
  Spec.free q (Block.chunk c)

theorem le_ownsRequest (q command askKey args : Ptr) (r : AmpRequest) :
    cell q (.request command askKey args) * (ownsChunk command r.command *
      (nullable ownsChunk askKey r.askKey * ownsBox args r.args)) ≤ ownsRequest q r :=
  le_iSup_of_le command (le_iSup_of_le askKey (le_iSup_of_le args le_rfl))

theorem Spec.of_ownsRequest {α : Type} {F : Assertion Block} {c : Program α}
    {Q : α → Assertion Block} {r : AmpRequest}
    (spec : ∀ command askKey args, Spec (cell q (.request command askKey args) *
      (ownsChunk command r.command * (nullable ownsChunk askKey r.askKey * ownsBox args r.args)) *
        F) c Q) :
    Spec (ownsRequest q r * F) c Q := by
  simp only [ownsRequest, iSup_mul]
  exact Spec.of_iSup fun command => Spec.of_iSup fun askKey => Spec.of_iSup fun args =>
    spec command askKey args

theorem freeOptional_spec (c : Option AmpChunk) :
    Spec (nullable ownsChunk q c) (unlessNull ampFreeChunk q) fun _ => 1 :=
  Spec.unlessNull ownsChunk (fun c => nonNull_cell q (Block.chunk c)) freeChunk_spec c

theorem freeArgs_spec (box : AmpBox) :
    Spec (ownsBox q box) (unlessNull ampFreeBox q) fun _ => 1 :=
  Spec.unlessNull ownsBox (fun _ => nonNull_box) (fun _ => freeBox_spec) (some box)

theorem ampFreeRequest_spec (r : AmpRequest) :
    Spec (ownsRequest q r) (ampFreeRequest q) fun _ => 1 := by
  refine Spec.of_iSup fun command => Spec.of_iSup fun askKey => Spec.of_iSup fun args => ?_
  refine Spec.look (Returns.readAs viewRequest (dvd_mul_right _ _) rfl) ?_
  rw [mul_comm]
  refine Spec.step (freeChunk_spec r.command) (mul_assoc _ _ _) fun _ => ?_
  rw [one_mul]
  refine Spec.step (freeOptional_spec r.askKey) (mul_assoc _ _ _) fun _ => ?_
  rw [one_mul]
  refine Spec.step (freeArgs_spec r.args) rfl fun _ => ?_
  rw [one_mul]
  exact Spec.free q _

theorem ampFreeResponse_spec (r : AmpResponse) :
    Spec (ownsResponse q r) (ampFreeResponse q) fun _ => 1 := by
  refine Spec.of_iSup fun args => ?_
  refine Spec.look (Returns.readAs viewResponse (dvd_mul_right _ _) rfl) ?_
  refine Spec.step freeBox_spec (mul_comm _ _) fun _ => ?_
  rw [one_mul]
  exact Spec.free q _

theorem ampFreeError_spec (e : RemoteError) :
    Spec (ownsError q e) (ampFreeError q) fun _ => 1 := by
  refine Spec.of_iSup fun code => Spec.of_iSup fun descr => ?_
  refine Spec.look (Returns.readAs viewError (dvd_mul_right _ _) rfl) ?_
  rw [mul_comm]
  refine Spec.step (freeOptional_spec e.errorCode) (mul_assoc _ _ _) fun _ => ?_
  rw [one_mul]
  refine Spec.step (freeOptional_spec e.errorDescr) rfl fun _ => ?_
  rw [one_mul]
  exact Spec.free q _

theorem freePayload_spec (r : AmpResult) (response error : Ptr) :
    Spec (payload response error r) (do
      unlessNull ampFreeResponse response
      unlessNull ampFreeError error) fun _ => 1 := by
  refine Spec.step
    (Spec.unlessNull ownsResponse nonNull_response ampFreeResponse_spec (responseOf r)) rfl
    fun _ => ?_
  rw [one_mul]
  exact Spec.unlessNull ownsError nonNull_error ampFreeError_spec (errorOf r)

theorem ampFreeResult_spec (r : AmpResult) :
    Spec (ownsResult q r) (ampFreeResult q) fun _ => 1 := by
  refine Spec.of_iSup fun response => Spec.of_iSup fun error => ?_
  refine Spec.look (Returns.readAs viewResult (dvd_mul_right _ _) rfl) ?_
  have freed := (freePayload_spec r response error).frame
    (cell q (Block.result (reasonOf r) response error))
  rw [mul_comm]
  have all := freed.bind fun _ => by
    rw [one_mul]
    exact Spec.free q (Block.result (reasonOf r) response error)
  simpa only [bind_assoc] using all

end Destructors

end LibAmp.OnHeap
