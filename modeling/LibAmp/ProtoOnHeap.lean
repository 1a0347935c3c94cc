import LibAmp.CallbacksOnHeap
import LibAmp.PacketsOnHeap

/-!
# Protos on the heap (`amp.c`)

Making, resetting and freeing a proto, with its box and its two maps, and registering responders.

## Main definitions

* `Forgotten` — what the library has allocated and lost track of.
* `protoAt` — the blocks of a proto, and what was forgotten.

## Main results

* `ampNewProto_spec` — without memory for all of its parts nothing is left of a proto.
* `ampFreeProto_spec` — freeing a proto frees all but what was forgotten.
-/

namespace LibAmp.OnHeap

open Heap Linked Separation Assertion

/-! ## The functions -/

/-- The `error:` label of `amp_new_proto`. -/
def newProtoFailed (proto box outstandingRequests : Ptr) (a : BlockAllocator) :
    Program (Ptr × BlockAllocator) := do
  free proto
  unlessNull ampFreeBox box
  unlessNull ampFreeCallbackMap outstandingRequests
  return (0, a)

/-- The fields as `amp_new_proto` sets them; the two arrays hold what was in memory. -/
def ProtoStruct.fresh (keyData : Buffer (256 + 1)) (valData : Buffer (256 * 256))
    (outstandingRequests responders box : Ptr) : ProtoStruct where
  state := .keyLenRead
  error := 0
  keyLen := -1
  keyData := keyData
  keyDataFetched := 0
  valLen := -1
  valData := valData
  valDataFetched := 0
  lastAskKey := 0
  write := .uninitialised
  outstandingRequests := outstandingRequests
  responders := responders
  box := box

def ampNewProto (a : BlockAllocator) (keyData : Buffer (256 + 1)) (valData : Buffer (256 * 256)) :
    Program (Ptr × BlockAllocator) := do
  let (proto, a) ← alloc a .proto .raw
  if proto = 0 then return (0, a)
  else
    let (box, a) ← ampNewBox a .box
    if box = 0 then newProtoFailed proto 0 0 a
    else
      let (outstandingRequests, a) ← ampNewCallbackMap a
      if outstandingRequests = 0 then newProtoFailed proto box 0 a
      else
        let (responders, a) ← ampNewResponderMap a
        if responders = 0 then newProtoFailed proto box outstandingRequests a
        else
          write proto (.proto (.fresh keyData valData outstandingRequests responders box))
          return (proto, a)

/-- The result of `amp_new_box` is not checked. -/
def ampResetProto (a : BlockAllocator) (proto : Ptr) : Program BlockAllocator := do
  let p ← readAs viewProto proto
  ampFreeBox p.box
  let (box, a) ← ampNewBox a .box
  write proto (.proto
    { p with
      state := .keyLenRead
      keyLen := -1
      keyDataFetched := 0
      valLen := -1
      valDataFetched := 0
      box := box
      error := 0 })
  return a

def ampFreeProto (proto : Ptr) : Program Unit := do
  let p ← readAs viewProto proto
  ampFreeBox p.box
  ampFreeCallbackMap p.outstandingRequests
  ampFreeResponderMap p.responders
  free proto

def ampSetWriteHandler (proto : Ptr) (func arg : Nat) : Program Unit := do
  let p ← readAs viewProto proto
  write proto (.proto { p with write := .installed func arg })

/-- The responder is used without a check. -/
def ampAddResponder (a : BlockAllocator) (proto command : Ptr) (func arg : Nat) :
    Program BlockAllocator := do
  let (resp, a) ← ampNewResponder a func arg
  let p ← readAs viewProto proto
  ampPutResponder a p.responders command resp

def ampRemoveResponder (proto : Ptr) (command : CString) : Program Unit := do
  let p ← readAs viewProto proto
  ampRemoveResponderBinding p.responders command

/-! ## The blocks of a proto -/

/-- The parser fields, next to a given box. -/
def ProtoStruct.parser (p : ProtoStruct) (box : Option AmpBox) : Parser where
  state := p.state
  error := p.error
  keyLen := p.keyLen
  keyData := p.keyData
  keyDataFetched := p.keyDataFetched
  valLen := p.valLen
  valData := p.valData
  valDataFetched := p.valDataFetched
  box := box

/-- What the library has allocated, does not use any more and never frees. -/
@[ext]
structure Forgotten where
  callbacks : List Callback
  responders : List Responder
  boxes : List AmpBox

def Forgotten.nothing : Forgotten := ⟨[], [], []⟩

def Forgotten.addCallbacks (gone : Forgotten) (cbs : List Callback) : Forgotten :=
  { gone with callbacks := cbs ++ gone.callbacks }

def Forgotten.addResponders (gone : Forgotten) (rs : List Responder) : Forgotten :=
  { gone with responders := rs ++ gone.responders }

def Forgotten.addBoxes (gone : Forgotten) (boxes : List AmpBox) : Forgotten :=
  { gone with boxes := boxes ++ gone.boxes }

/-- The fields of a proto that are not pointers. -/
structure ProtoStruct.Holds (p : ProtoStruct) (proto : AmpProto) : Prop where
  parser : p.parser proto.box = proto.toParser
  lastAskKey : p.lastAskKey = proto.lastAskKey
  write : p.write = proto.write

/-- What the pointers of a proto lead to. -/
def partsAt (texts : List (Ptr × CString)) (p : ProtoStruct) (proto : AmpProto)
    (gone : Forgotten) : Assertion Block :=
  nullable ownsBox p.box proto.box *
    (callbacksAt p.outstandingRequests proto.outstandingRequests gone.callbacks *
      (respondersAt texts p.responders proto.responders gone.responders *
        scattered ownsBox gone.boxes))

/-- The proto at `q`, and what was forgotten. -/
def protoAt (texts : List (Ptr × CString)) (q : Ptr) (proto : AmpProto) (gone : Forgotten) :
    Assertion Block :=
  ⨆ p : ProtoStruct, fact (p.Holds proto) * (cell q (.proto p) * partsAt texts p proto gone)

/-- What is left of a proto that is freed. -/
def forgotten (gone : Forgotten) : Assertion Block :=
  scattered ownsCallback gone.callbacks *
    (scattered ownsResponder gone.responders * scattered ownsBox gone.boxes)

@[simp] theorem forgotten_nothing : forgotten .nothing = 1 := by
  simp [forgotten, Forgotten.nothing]

section Proto

variable {texts : List (Ptr × CString)} {q : Ptr} {proto : AmpProto} {gone : Forgotten}
  {α : Type} {F : Assertion Block} {c : Program α} {Q : α → Assertion Block}

theorem Spec.of_protoAt
    (spec : ∀ p : ProtoStruct, p.Holds proto →
      Spec (cell q (.proto p) * (partsAt texts p proto gone * F)) c Q) :
    Spec (protoAt texts q proto gone * F) c Q := by
  simp only [protoAt, iSup_mul, mul_assoc]
  exact Spec.of_iSup fun p => Spec.of_fact fun holds => spec p holds

theorem le_protoAt {p : ProtoStruct} (holds : p.Holds proto) :
    cell q (.proto p) * partsAt texts p proto gone ≤ protoAt texts q proto gone :=
  le_iSup_of_le p (le_fact_mul holds le_rfl)

theorem nonNull_proto : NonNull q (protoAt texts q proto gone) :=
  .iSup fun _ => ((nonNull_cell q _).mul_right _).mul_left _

/-- The box of a proto, or the null pointer, is freed. -/
theorem freeBoxOrNull_spec {box : Option AmpBox} :
    Spec (nullable ownsBox q box) (ampFreeBox q) fun _ => 1 := by
  cases box with
  | none =>
    rw [nullable, ← mul_one (fact _)]
    refine Spec.of_fact ?_
    rintro rfl
    exact Spec.ret (fun _ => 1) ()
  | some box => exact freeBox_spec

/-- A new box, or the null pointer. -/
theorem ampNewBox_spec {β : Type} {P : Assertion Block} {S : β → Assertion Block}
    {a : BlockAllocator} {site : Site} {k : Ptr × BlockAllocator → Program β}
    (next : ∀ q a', (q = 0 ↔ (LibAmp.ampNewBox site a.serves).1 = none) →
      a'.serves = (LibAmp.ampNewBox site a.serves).2 →
      Spec (nullable ownsBox q (LibAmp.ampNewBox site a.serves).1 * P) (k (q, a')) S) :
    Spec P (ampNewBox a site >>= k) S := by
  unfold LibAmp.ampNewBox at next
  refine newBox_spec (fun served p nonNull => ?_) fun refused => ?_
  · rw [malloc, served] at next
    refine (next p (a.drop 1) (by simp [nonNull]) rfl).conseq (mul_mono ?_ le_rfl) fun _ => le_rfl
    exact le_ownsBox p (.new hashString)
  · rw [malloc, refused] at next
    refine (next 0 (a.drop 1) (by simp) rfl).conseq ?_ fun _ => le_rfl
    exact le_fact_mul rfl le_rfl

/-- Giving up on a new proto leaves nothing. -/
theorem newProtoFailed_spec {β : Type} {own : Ptr → β → Assertion Block} {box cbMap : Ptr}
    (boxV : Option AmpBox) (map : Option CallbackMap) (a : BlockAllocator) :
    Spec (cell q .raw * (nullable ownsBox box boxV *
        nullable (fun p map => callbacksAt p map []) cbMap map))
      (newProtoFailed q box cbMap a) fun r =>
      fact (r.2.serves = a.serves) * nullable own r.1 none := by
  refine Spec.step (Spec.free q Block.raw) rfl fun _ => ?_
  rw [one_mul]
  refine Spec.step (Spec.unlessNull ownsBox (fun _ => nonNull_box) (fun _ => freeBox_spec) boxV) rfl
    fun _ => ?_
  rw [one_mul]
  refine Spec.bind (Spec.unlessNull (fun p map => callbacksAt p map [])
    (fun map => nonNull_callbacks) (fun _ => ampFreeCallbackMap_spec) map) fun _ => ?_
  exact Spec.done _ (le_fact_mul rfl (le_of_eq (fact_of rfl).symm))

/-- A new proto, or the null pointer, and then nothing at all. -/
theorem ampNewProto_spec (texts : List (Ptr × CString)) (a : BlockAllocator)
    {keyData : Buffer (256 + 1)} {valData : Buffer (256 * 256)} {v : Option AmpProto × Mem}
    (run : LibAmp.ampNewProto a.serves keyData valData = .ok v) :
    Spec 1 (ampNewProto a keyData valData) fun r =>
      fact (r.2.serves = v.2) *
        nullable (fun q proto => protoAt texts q proto .nothing) r.1 v.1 := by
  unfold LibAmp.ampNewProto at run
  refine Spec.alloc (fun served q nonNull => Spec.neg nonNull ?_) fun refused => Spec.pos rfl ?_
  · rw [malloc, served] at run
    dsimp only at run
    refine ampNewBox_spec fun box a' null mem => ?_
    rw [Allocator.serves_drop] at null mem ⊢
    rcases made : LibAmp.ampNewBox .box (fun n => a.serves (n + 1)) with ⟨_ | boxV, mem'⟩ <;>
      rw [made] at run null mem
    · obtain rfl := Except.ok.inj run
      obtain rfl := null.2 rfl
      rw [← mem]
      refine Spec.pos rfl (Spec.rearrange ?_ (newProtoFailed_spec none none a'))
      simp only [nullable, fact_of, one_mul, mul_one]
    · refine Spec.neg (fun h => by simpa using null.1 h) ?_
      obtain rfl : mem' = a'.serves := mem.symm
      dsimp only at run
      rw [ampNewCallbackMap_eq] at run
      refine ampNewCallbackMap_spec (fun served cbMap nonNull => Spec.neg nonNull ?_)
        fun refused => Spec.pos rfl ?_
      · rw [if_pos served] at run
        dsimp only at run
        rw [ampNewResponderMap_eq] at run
        refine ampNewResponderMap_spec texts
          (fun served' respMap nonNull => Spec.neg nonNull ?_) fun refused => Spec.pos rfl ?_
        · rw [Allocator.serves_drop] at served'
          rw [if_pos served'] at run
          obtain rfl := Except.ok.inj run
          refine Spec.step (Spec.write q Block.raw _) (F := ownsBox box boxV *
            (callbacksAt cbMap noCallbacks [] * respondersAt texts respMap noResponders []))
            ?_ fun _ => ?_
          · rw [nullable]
            ac_rfl
          have holds : (ProtoStruct.fresh keyData valData cbMap respMap box).Holds
              { toParser := .fresh keyData valData boxV, lastAskKey := 0, write := .uninitialised,
                outstandingRequests := noCallbacks, responders := noResponders } :=
            ⟨rfl, rfl, rfl⟩
          refine Spec.done _ (le_fact_mul rfl (le_trans (le_of_eq ?_) (le_protoAt holds)))
          rw [partsAt, ← mul_one (respondersAt texts respMap noResponders [])]
          rfl
        · rw [Allocator.serves_drop] at refused
          rw [if_neg (by simp [refused])] at run
          obtain rfl := Except.ok.inj run
          refine Spec.rearrange ?_ (newProtoFailed_spec (some boxV) (some noCallbacks)
            ((a'.drop 1).drop 1))
          simp only [nullable, mul_one]
          ac_rfl
      · rw [if_neg (by simp [refused])] at run
        obtain rfl := Except.ok.inj run
        refine Spec.rearrange ?_ (newProtoFailed_spec (some boxV) none (a'.drop 1))
        simp only [nullable, fact_of, mul_one]
        ac_rfl
  · rw [malloc, refused] at run
    obtain rfl := Except.ok.inj run
    refine Spec.done _ (le_fact_mul rfl (le_of_eq ?_))
    exact (fact_of rfl).symm

/-- Resetting frees the box and makes a new one. -/
theorem ampResetProto_spec (a : BlockAllocator) :
    Spec (protoAt texts q proto gone) (ampResetProto a q) fun a' =>
      fact (a'.serves = (LibAmp.ampResetProto a.serves proto).2) *
        protoAt texts q (LibAmp.ampResetProto a.serves proto).1 gone := by
  rw [← mul_one (protoAt texts q proto gone)]
  refine Spec.of_protoAt fun p holds => ?_
  rw [mul_one]
  refine Spec.look (Returns.readAs viewProto (dvd_mul_right _ _) rfl) ?_
  rw [mul_comm]
  refine Spec.step freeBoxOrNull_spec (mul_assoc _ _ _) fun _ => ?_
  rw [one_mul]
  refine ampNewBox_spec fun box a' _ mem => ?_
  obtain ⟨parts, rest⟩ : ∃ parts, parts =
      callbacksAt p.outstandingRequests proto.outstandingRequests gone.callbacks *
        (respondersAt texts p.responders proto.responders gone.responders *
          scattered ownsBox gone.boxes) := ⟨_, rfl⟩
  refine Spec.step (Spec.write q (Block.proto p) _)
    (F := nullable ownsBox box (LibAmp.ampNewBox .box a.serves).1 * parts) ?_ fun _ => ?_
  · rw [rest]
    ac_rfl
  obtain ⟨p', fields⟩ : ∃ p' : ProtoStruct, p' = { p with
      state := .keyLenRead, keyLen := -1, keyDataFetched := 0, valLen := -1, valDataFetched := 0,
      box := box, error := 0 } := ⟨_, rfl⟩
  have holds' : p'.Holds (LibAmp.ampResetProto a.serves proto).1 := by
    have parser := holds.parser
    rw [fields]
    refine ⟨?_, holds.lastAskKey, holds.write⟩
    rw [LibAmp.ampResetProto, Parser.reset, ← parser]
    rfl
  refine Spec.done _ (le_fact_mul mem ?_)
  refine le_trans (le_of_eq ?_) (le_protoAt holds')
  rw [partsAt, fields, rest]
  rfl

theorem ampSetWriteHandler_spec (func arg : Nat) :
    Spec (protoAt texts q proto gone) (ampSetWriteHandler q func arg) fun _ =>
      protoAt texts q { proto with
        toDispatcher := LibAmp.ampSetWriteHandler proto.toDispatcher func arg } gone := by
  rw [← mul_one (protoAt texts q proto gone)]
  refine Spec.of_protoAt fun p holds => ?_
  rw [mul_one]
  refine Spec.look (Returns.readAs viewProto (dvd_mul_right _ _) rfl) ?_
  refine ((Spec.write q (Block.proto p) _).frame _).post fun _ => ?_
  have holds' : ProtoStruct.Holds { p with write := .installed func arg } { proto with
      toDispatcher := LibAmp.ampSetWriteHandler proto.toDispatcher func arg } :=
    ⟨holds.parser, holds.lastAskKey, rfl⟩
  exact le_protoAt holds'

/-- Registering a responder, if there is memory for one. -/
theorem ampAddResponder_spec (a : BlockAllocator) {command : Ptr} {name : CString}
    {func arg : Nat} {v : Dispatcher × Mem} (named : (command, name) ∈ texts)
    (run : LibAmp.ampAddResponder proto.toDispatcher a.serves name func arg = .ok v) :
    Spec (protoAt texts q proto gone * textsAt texts) (ampAddResponder a q command func arg)
      fun a' => fact (a'.serves = v.2) *
        (protoAt texts q { proto with toDispatcher := v.1 }
          (gone.addResponders
            (responderLost (a.drop 1).serves proto.responders ⟨name, func, arg⟩)) *
          textsAt texts) := by
  unfold LibAmp.ampAddResponder LibAmp.ampNewResponder at run
  refine ampNewResponder_spec (fun served resp nonNull => ?_) fun refused => ?_
  · rw [malloc, served] at run
    have result : v = ({ proto.toDispatcher with
        responders := (LibAmp.ampPutResponder (a.drop 1).serves proto.responders
          ⟨name, func, arg⟩).2.1 },
        (LibAmp.ampPutResponder (a.drop 1).serves proto.responders ⟨name, func, arg⟩).2.2) :=
      (Except.ok.inj run).symm
    rw [result, mul_left_comm]
    refine Spec.of_protoAt fun p holds => ?_
    refine Spec.look (Returns.readAs viewProto (dvd_mul_right _ _) rfl) ?_
    refine Spec.finish (ampPutResponder_spec proto.responders gone.responders func arg (a.drop 1)
      named 0)
      (F := cell q (.proto p) * (nullable ownsBox p.box proto.box *
        (callbacksAt p.outstandingRequests proto.outstandingRequests gone.callbacks *
          scattered ownsBox gone.boxes))) ?_ fun a' => ?_
    · rw [partsAt]
      ac_rfl
    · rw [mul_assoc]
      refine mul_mono le_rfl ?_
      have holds' : p.Holds { proto with toDispatcher := { proto.toDispatcher with
          responders := (LibAmp.ampPutResponder (a.drop 1).serves proto.responders
            ⟨name, func, arg⟩).2.1 } } :=
        ⟨holds.parser, holds.lastAskKey, holds.write⟩
      refine le_trans (le_of_eq ?_) (mul_mono (le_protoAt holds') le_rfl)
      rw [partsAt]
      dsimp only [Forgotten.addResponders]
      ac_rfl
  · rw [malloc, refused] at run
    cases run

theorem ampRemoveResponder_spec (name : CString) :
    Spec (protoAt texts q proto gone * textsAt texts) (ampRemoveResponder q name) fun _ =>
      protoAt texts q { proto with
        toDispatcher := LibAmp.ampRemoveResponder proto.toDispatcher name } gone *
        textsAt texts := by
  refine Spec.of_protoAt fun p holds => ?_
  refine Spec.look (Returns.readAs viewProto (dvd_mul_right _ _) rfl) ?_
  refine Spec.finish (removeResponder_spec texts p.responders proto.responders gone.responders name)
    (F := cell q (.proto p) * (nullable ownsBox p.box proto.box *
      (callbacksAt p.outstandingRequests proto.outstandingRequests gone.callbacks *
        scattered ownsBox gone.boxes))) ?_ fun _ => ?_
  · rw [partsAt]
    ac_rfl
  · have holds' : p.Holds { proto with
        toDispatcher := LibAmp.ampRemoveResponder proto.toDispatcher name } :=
      ⟨holds.parser, holds.lastAskKey, holds.write⟩
    refine le_trans (le_of_eq ?_) (mul_mono (le_protoAt holds') le_rfl)
    rw [partsAt]
    dsimp only [LibAmp.ampRemoveResponder]
    ac_rfl

theorem ampFreeProto_spec :
    Spec (protoAt texts q proto gone) (ampFreeProto q) fun _ => forgotten gone := by
  rw [← mul_one (protoAt texts q proto gone)]
  refine Spec.of_protoAt fun p holds => ?_
  rw [mul_one]
  refine Spec.look (Returns.readAs viewProto (dvd_mul_right _ _) rfl) ?_
  rw [mul_comm]
  refine Spec.step freeBoxOrNull_spec (mul_assoc _ _ _) fun _ => ?_
  rw [one_mul]
  refine Spec.step ampFreeCallbackMap_spec (mul_assoc _ _ _) fun _ => ?_
  refine Spec.step ampFreeResponderMap_spec
    (F := scattered ownsCallback gone.callbacks * scattered ownsBox gone.boxes *
      cell q (.proto p)) (by ac_rfl) fun _ => ?_
  refine ((Spec.free q (Block.proto p)).frame (forgotten gone)).conseq (le_of_eq ?_) fun _ => ?_
  · rw [forgotten]
    ac_rfl
  · rw [one_mul]

end Proto

end LibAmp.OnHeap
