import LibAmp.RecordsOnHeap

/-!
# Packets on the heap (`amp_serialize_box`, `_amp_do_write`)

Storing into a box that may be missing, serializing a box into a new buffer, and handing the
buffer to the write handler, which takes possession of it.
-/

namespace LibAmp.OnHeap

open Heap Linked Separation Assertion

variable {U : Type}

/-! ## Storing -/

section Storing

variable {q : Ptr} {key : CString} {buf : List UInt8} {n : Int} {F : Assertion Block}

/-- Without a box, or with too short a buffer, nothing but an error can come back. -/
theorem putBuf_refused {P : Assertion Block} (a : BlockAllocator) {box : Option AmpBox}
    {r : PutResult} (run : LibAmp.ampPutBuf a.serves box key buf n = .ok r)
    (undefined : box = none ∨ ¬ n ≤ buf.length) :
    r.box = box ∧
      Spec P (ampPutBuf a q key buf n) fun s => fact (s.1 = r.ret ∧ s.2.serves = r.mem) * P := by
  unfold LibAmp.ampPutBuf at run
  unfold ampPutBuf
  by_cases hkey : strlen key > maxKeyLength ∨ strlen key = 0
  · simp only [hkey, ↓reduceDIte] at run ⊢
    obtain rfl := Except.ok.inj run
    exact ⟨rfl, Spec.done _ (le_fact_mul ⟨rfl, rfl⟩ le_rfl)⟩
  by_cases hval : n > maxValueLength ∨ n < 0
  · simp only [hkey, hval, ↓reduceDIte] at run ⊢
    obtain rfl := Except.ok.inj run
    exact ⟨rfl, Spec.done _ (le_fact_mul ⟨rfl, rfl⟩ le_rfl)⟩
  simp only [hkey, hval, ↓reduceDIte, malloc] at run ⊢
  cases served : a.serves 0 .keyval with
  | false =>
    rw [served] at run
    obtain rfl := Except.ok.inj run
    refine ⟨rfl, Spec.alloc (fun served' => ?_) fun _ => Spec.pos rfl ?_⟩
    · rw [served] at served'
      cases served'
    · exact Spec.done _ (le_fact_mul ⟨rfl, rfl⟩ le_rfl)
  | true =>
    rw [served] at run
    by_cases hbuf : n > buf.length
    · simp [hbuf] at run
    · obtain rfl : box = none := undefined.resolve_right fun short => short (by omega)
      simp [hbuf] at run

/-- Storing into a box, or into none, as far as that is not undefined. -/
theorem putBuf_spec (a : BlockAllocator) {box : Option AmpBox} {r : PutResult}
    (run : LibAmp.ampPutBuf a.serves box key buf n = .ok r) :
    Spec (nullable ownsBox q box) (ampPutBuf a q key buf n) fun s =>
      fact (s.1 = r.ret ∧ s.2.serves = r.mem) * nullable ownsBox q r.box := by
  by_cases undefined : box = none ∨ ¬ n ≤ buf.length
  · obtain ⟨same, spec⟩ := putBuf_refused (P := nullable ownsBox q box) a run undefined
    rwa [same]
  · obtain ⟨some, room⟩ := not_or.1 undefined
    obtain ⟨box, rfl⟩ := Option.ne_none_iff_exists'.1 some
    rw [nullable, ← mul_one (ownsBox q box)]
    refine Spec.of_ownsBox ?_
    rintro b rfl
    rw [mul_one]
    refine (ampPutBuf_spec a key (not_not.1 room)).post fun s => iSup_le fun b' =>
      fact_mul_le fun stored => ?_
    obtain rfl := Except.ok.inj (stored.1.symm.trans run)
    exact le_fact_mul ⟨rfl, rfl⟩ (le_ownsBox q b')

theorem delKey_spec {box : AmpBox} (key : CString) :
    Spec (ownsBox q box) (ampDelKey q key) fun r =>
      fact (r = (LibAmp.ampDelKey box key).2) * ownsBox q (LibAmp.ampDelKey box key).1 := by
  rw [← mul_one (ownsBox q box)]
  refine Spec.of_ownsBox ?_
  rintro b rfl
  rw [mul_one]
  refine ampDelKey_spec.post fun s => iSup_le fun b' => fact_mul_le fun deleted => ?_
  rw [← deleted.1]
  exact le_fact_mul rfl (le_ownsBox q b')

end Storing

/-! ## Serializing -/

/-- The first loop of `amp_serialize_box`: the bytes to allocate. -/
def serializedSize (b : BoxStruct) : Program Int32 :=
  (List.finRange b.size).foldlM (fun size i =>
    foldFrom bindingLayout (fun size keyval => do
      let kv ← readAs viewKeyval keyval
      return size + Int32.ofInt (4 + kv.keySize + kv.valueSize)) size (b.buckets i)) 2

/-- The second loop: the bytes it writes for the bindings. -/
def serializedBindings (b : BoxStruct) : Program (List UInt8) :=
  (List.finRange b.size).foldlM (fun bytes i =>
    foldFrom bindingLayout (fun bytes keyval => do
      let kv ← readAs viewKeyval keyval
      return bytes ++ encodeKeyValue kv) bytes (b.buckets i)) []

/-- A negative `size` becomes a `size_t` no allocator serves, and writing past the allocation is
undefined. -/
def ampSerializeBox (a : BlockAllocator) (box : Ptr) :
    Program (Except AmpError Ptr × BlockAllocator) := do
  let b ← readAs viewBox box
  let size ← serializedSize b
  if size = 2 then return (.error ampBoxEmpty, a)
  else if size.toInt < 0 then return (.error enomem, a.drop 1)
  else
    let (buf, a) ← alloc a .packet .raw
    if buf = 0 then return (.error enomem, a)
    else
      let bytes ← serializedBindings b
      if (bytes ++ [0, 0]).length > size.toInt then fail .undefined
      else
        write buf (.bytes (bytes ++ [0, 0]))
        return (.ok buf, a)

def ownsBytes (q : Ptr) (bs : List UInt8) : Assertion Block := cell q (.bytes bs)

section Serializing

variable {q : Ptr} {b : LocatedBox}

/-- A double loop over the bindings of a box. -/
theorem foldBox_returns {β : Type} {P : Assertion Block} {f : β → Ptr → Program β}
    {g : β → AmpKeyValue → β} (own : boxAt q b ∣ P)
    (steps : ∀ keyval kv, cell keyval (.keyval kv) ∣ P → ∀ x, Returns P (f x keyval) (g x kv))
    (x : β) :
    Returns P ((List.finRange b.struct.size).foldlM (fun x i =>
      foldFrom bindingLayout f x (b.struct.buckets i)) x) (b.toBox.entries.foldl g x) := by
  have folded : b.toBox.entries.foldl g x =
      (List.finRange b.size).foldl
        (fun x i => (b.buckets i).foldl (fun x e => g x e.ghost) x) x := by
    simp only [AmpBox.entries, Buckets.entries, LocatedBox.toBox, List.foldl_flatMap,
      List.foldl_map]
  rw [folded]
  refine Returns.foldlM (ι := Fin b.size) _ (fun i _ x => ?_) x
  have chain := (bucket_dvd q b i).trans own
  exact foldFrom_returns (b.buckets i) (chain_cells_dvd chain)
    (fun e mem x => steps e.data e.ghost (keyval_dvd chain mem) x) x

theorem serializedSize_returns :
    Returns (boxAt q b) (serializedSize b.struct) (LibAmp.serializedSize b.toBox) :=
  foldBox_returns (f := fun size keyval => do
    let kv ← readAs viewKeyval keyval
    return size + Int32.ofInt (4 + kv.keySize + kv.valueSize)) dvd_rfl (fun _ _ own _ =>
      (Returns.readAs viewKeyval own rfl).bind (Returns.ret _ _)) 2

theorem serializedBindings_returns :
    Returns (boxAt q b) (serializedBindings b.struct)
      (b.toBox.entries.flatMap encodeKeyValue) := by
  have folded := foldBox_returns (q := q) (b := b) (g := fun bytes kv => bytes ++ encodeKeyValue kv)
    (f := fun bytes keyval => do
      let kv ← readAs viewKeyval keyval
      return bytes ++ encodeKeyValue kv) dvd_rfl (fun _ _ own _ =>
        (Returns.readAs viewKeyval own rfl).bind (Returns.ret _ _)) []
  have flat (l : List AmpKeyValue) (bytes : List UInt8) :
      l.foldl (fun bytes kv => bytes ++ encodeKeyValue kv) bytes =
        bytes ++ l.flatMap encodeKeyValue := by
    induction l generalizing bytes with
    | nil => simp
    | cons kv l ih => rw [List.foldl_cons, ih, List.flatMap_cons, List.append_assoc]
  rwa [flat, List.nil_append] at folded

/-- Serializing leaves the box as it is and puts the packet into a new block. -/
theorem ampSerializeBox_spec (a : BlockAllocator) {box : AmpBox}
    {v : Except AmpError (List UInt8) × Mem} (run : LibAmp.ampSerializeBox a.serves box = .ok v) :
    Settles (ownsBox q box) (ampSerializeBox a q) (fun buf bs => ownsBytes buf bs * ownsBox q box)
      (ownsBox q box) v := by
  rw [Settles, ← mul_one (ownsBox q box)]
  refine Spec.of_ownsBox ?_
  rintro b rfl
  rw [mul_one, mul_one]
  have same := le_ownsBox q b
  refine Spec.look (Returns.readAs viewBox (struct_dvd q b) rfl) ?_
  refine Spec.look serializedSize_returns ?_
  unfold LibAmp.ampSerializeBox at run
  by_cases empty : LibAmp.serializedSize b.toBox = 2
  · simp only [empty, ↓reduceIte] at run
    obtain rfl := Except.ok.inj run
    exact Spec.pos empty (Settles.failed ampBoxEmpty same)
  refine Spec.neg empty ?_
  simp only [empty, ↓reduceIte, malloc] at run
  by_cases neg : (LibAmp.serializedSize b.toBox).toInt < 0
  · refine Spec.pos neg ?_
    obtain rfl : v = (.error enomem, (a.drop 1).serves) := by
      cases served : a.serves 0 .packet <;> rw [served] at run
      · exact (Except.ok.inj run).symm
      · simp only [neg, ↓reduceIte] at run
        exact (Except.ok.inj run).symm
    exact Settles.failed enomem same
  refine Spec.neg neg (Spec.alloc (fun served buf nonNull => Spec.neg nonNull ?_)
    fun refused => Spec.pos rfl ?_)
  · rw [served] at run
    refine Spec.look (serializedBindings_returns.of_dvd (dvd_mul_left _ _)) ?_
    have written : b.toBox.entries.flatMap encodeKeyValue ++ [0, 0] =
        serializedBytes b.toBox := rfl
    rw [written]
    simp only [neg, ↓reduceIte] at run
    split at run
    · cases run
    next fits =>
      obtain rfl := Except.ok.inj run
      refine Spec.neg fits ?_
      refine Spec.step (Spec.write buf _ _) rfl fun _ => ?_
      exact Settles.done buf _ (mul_mono le_rfl same)
  · rw [refused] at run
    obtain rfl := Except.ok.inj run
    exact Settles.failed enomem same

end Serializing

/-! ## Writing -/

/-- What the library hands to an application, which has to free it. -/
inductive Object where
  | box (box : AmpBox)
  | request (request : AmpRequest)
  | result (result : AmpResult)
  | packet (bytes : List UInt8)

/-- The state of an application and the objects it has, as values or as pointers. -/
structure Application (U O : Type) where
  state : U
  objects : List O

/-- A write handler that keeps the packets it takes possession of. -/
def keeping (write : WriteHandler U) : WriteHandler (Application U Object) :=
  fun func arg bytes app =>
    let (ret, state) := write func arg bytes app.state
    (ret, { state := state, objects := .packet bytes :: app.objects })

/-- `proto->write(proto, buf, buf_size, proto->write_arg)`. -/
def callWriteHandler (handler : WriteHandler U) (func arg : Nat) (buf : Ptr)
    (app : Application U Ptr) : Program (Int × Application U Ptr) := do
  let bytes ← readAs viewBytes buf
  let (ret, state) := handler func arg bytes app.state
  return (ret, { state := state, objects := buf :: app.objects })

def ampDoWrite (handler : WriteHandler U) (proto buf : Ptr) (app : Application U Ptr) :
    Program (Int × Application U Ptr) := do
  let p ← readAs viewProto proto
  match p.write with
  | .uninitialised => fail .undefined
  | .null =>
    free buf
    return (1, app)
  | .installed func arg => callWriteHandler handler func arg buf app

/-- Serialize a box and hand the packet to `send`. -/
def serializeAndSend (send : Ptr → Application U Ptr → Program (Int × Application U Ptr))
    (a : BlockAllocator) (box : Ptr) (app : Application U Ptr) :
    Program (Int × BlockAllocator × Application U Ptr) := do
  match ← ampSerializeBox a box with
  | (.error err, a) => return (err, a, app)
  | (.ok packet, a) =>
    let (ret, app) ← send packet app
    return (ret, a, app)

def ownsObject (q : Ptr) : Object → Assertion Block
  | .box box => ownsBox q box
  | .request request => ownsRequest q request
  | .result result => ownsResult q result
  | .packet bytes => ownsBytes q bytes

/-- The objects of an application, each at its pointer. -/
def applicationAt (app : Application U Ptr) (v : Application U Object) : Assertion Block :=
  fact (app.state = v.state) * aligned ownsObject app.objects v.objects

section Writing

variable {q buf : Ptr} {p : ProtoStruct} {bytes : List UInt8} {app : Application U Ptr}
  {own : Application U Object} {handler : WriteHandler U}

theorem callWriteHandler_spec (func arg : Nat) :
    Spec (ownsBytes buf bytes * applicationAt app own) (callWriteHandler handler func arg buf app)
      fun r => fact (r.1 = (keeping handler func arg bytes own).1) *
        applicationAt r.2 (keeping handler func arg bytes own).2 := by
  refine Spec.look (Returns.readAs viewBytes (dvd_mul_right _ _) rfl) ?_
  rw [applicationAt, mul_left_comm]
  refine Spec.of_fact fun same => ?_
  rw [same]
  exact Spec.done _ (le_fact_mul rfl (le_fact_mul rfl le_rfl))

/-- Without a write handler the packet is freed, otherwise the application has it. -/
theorem ampDoWrite_spec {proto : Dispatcher} {v : Int × Application U Object}
    (same : p.write = proto.write)
    (run : LibAmp.ampDoWrite (keeping handler) proto bytes own = .ok v) :
    Spec (ownsBytes buf bytes * (cell q (.proto p) * applicationAt app own))
      (ampDoWrite handler q buf app) fun r =>
        fact (r.1 = v.1) * (cell q (.proto p) * applicationAt r.2 v.2) := by
  unfold LibAmp.ampDoWrite at run
  refine Spec.look (Returns.readAs viewProto ((dvd_mul_right _ _).mul_left _) rfl) ?_
  rw [same]
  cases slot : proto.write with
  | uninitialised => simp [slot] at run
  | null =>
    simp only [slot, Except.ok.injEq] at run
    obtain rfl := run
    refine Spec.step (Spec.free buf (.bytes bytes)) rfl fun _ => ?_
    rw [one_mul]
    exact Spec.done _ (le_fact_mul rfl le_rfl)
  | installed func arg =>
    simp only [slot, Except.ok.injEq] at run
    obtain rfl := run
    refine Spec.finish (callWriteHandler_spec func arg) (F := cell q (.proto p)) (by ac_rfl)
      fun r => le_of_eq ?_
    ac_rfl

/-- A box that is sent stays as it is; the packet goes to `send`. -/
theorem serializeAndSend_spec {P : Assertion Block} {box : AmpBox}
    {send : Ptr → Application U Ptr → Program (Int × Application U Ptr)}
    {sendV : List UInt8 → Application U Object → Except Fault (Int × Application U Object)}
    (sends : ∀ buf bytes v, sendV bytes own = .ok v →
      Spec (ownsBytes buf bytes * (P * applicationAt app own)) (send buf app) fun r =>
        fact (r.1 = v.1) * (P * applicationAt r.2 v.2))
    (a : BlockAllocator) {w : Written (Application U Object)}
    (run : LibAmp.serializeAndSend sendV a.serves box own = .ok w) :
    Spec (ownsBox q box * (P * applicationAt app own)) (serializeAndSend send a q app) fun r =>
      fact (r.1 = w.ret ∧ r.2.1.serves = w.mem) *
        (ownsBox q box * (P * applicationAt r.2.2 w.own)) := by
  unfold LibAmp.serializeAndSend at run
  cases serialized : LibAmp.ampSerializeBox a.serves box with
  | error e => simp [serialized] at run
  | ok v =>
    rw [serialized] at run
    refine Spec.settle (ampSerializeBox_spec a serialized) rfl (fun err a' failed => ?_)
      fun buf bytes a' done => ?_
    · subst failed
      obtain rfl := Except.ok.inj run
      exact Spec.done _ (le_fact_mul ⟨rfl, rfl⟩ le_rfl)
    · subst done
      dsimp only at run ⊢
      cases sent : sendV bytes own with
      | error e => simp [sent] at run
      | ok v =>
        simp only [sent, Except.ok.injEq] at run
        obtain rfl := run
        refine Spec.step (sends buf bytes v sent) (F := ownsBox q box) (by ac_rfl) fun r => ?_
        rw [mul_assoc]
        refine Spec.of_fact fun ret => ?_
        exact Spec.done _ (le_fact_mul ⟨ret, rfl⟩ (le_of_eq (mul_comm _ _)))

end Writing

end LibAmp.OnHeap
