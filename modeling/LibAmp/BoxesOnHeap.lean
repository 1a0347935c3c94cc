import LibAmp.BoxRefines

/-!
# Any calls on any number of boxes

Boxes side by side on one heap are finite maps, whichever allocations fail and wherever the
blocks are placed; freeing them gives the heap back (`boxes_refine_maps`). A buffer handed out by
`amp_get_bytes` is not a copy, and stays readable and unchanged until its own key is stored anew
or deleted (`view_stable`).

## Main results

* `runOp_spec` — one call on one box.
* `boxes_refine_maps` — any calls on any boxes, freed at the end.
* `view_stable` — how long a buffer is valid.
-/

namespace LibAmp.OnHeap

open Heap Linked Separation Assertion

/-! ## One call -/

/-- Perform one call. A buffer that is handed out is read at once. -/
def runOp (a : BlockAllocator) (box : Ptr) : BoxOp → Program (BoxReply × BlockAllocator)
  | .put key buf bufSize _ => do
    let (ret, a) ← ampPutBuf a box key buf bufSize
    return (.code ret, a)
  | .del key => do return (.code (← ampDelKey box key), a)
  | .has key => do return (.code (← ampHasKey box key), a)
  | .get key => do
    match ← ampGetBuf box key with
    | .error err => return (.code err, a)
    | .ok (buf, size) => return (.value (← readBuf buf size), a)
  | .numKeys => do return (.code (← ampNumKeys box), a)

/-- The call, with this reply, has stored the key anew or deleted it. -/
def Releases (op : BoxOp) (reply : BoxReply) (key : CString) : Prop :=
  match op with
  | .put key' _ _ _ => reply = .code 0 ∧ key' = key
  | .del key' => reply = .code 0 ∧ key' = key
  | _ => False

/-- What a call does: what the call on values does, and the bindings of other keys stay in
place. -/
def Performs (op : BoxOp) (mem : Mem) (b : LocatedBox) (reply : BoxReply) (b' : LocatedBox)
    (mem' : Mem) : Prop :=
  op.run mem (some b.toBox) = .ok (reply, some b'.toBox, mem') ∧
    ∀ e ∈ b.entries, ¬ Releases op reply e.ghost.key → e ∈ b'.entries

theorem runOp_spec (a : BlockAllocator) (p : Ptr) (b : LocatedBox) (op : BoxOp) :
    Spec (boxAt p b) (runOp a p op) fun r => ⨆ b' : LocatedBox,
      fact (Performs op a.serves b r.1 b' r.2.serves) * boxAt p b' := by
  have same {r : BoxReply}
      (run : op.run a.serves (some b.toBox) = .ok (r, some b.toBox, a.serves)) :
      Spec (boxAt p b) (pure (r, a)) fun r : BoxReply × BlockAllocator => ⨆ b' : LocatedBox,
        fact (Performs op a.serves b r.1 b' r.2.serves) * boxAt p b' :=
    Spec.done _ (le_iSup_of_le b (le_fact_mul ⟨run, fun _ mem _ => mem⟩ le_rfl))
  cases op with
  | put key buf bufSize room =>
    refine (ampPutBuf_spec a key room).bind fun r => Spec.of_iSup fun b' => Spec.of_fact ?_
    rintro ⟨put, keeps⟩
    refine Spec.done _ (le_iSup_of_le b' (le_fact_mul ⟨?_, ?_⟩ le_rfl))
    · simp only [BoxOp.run, put]
    · exact fun e mem kept => keeps e mem fun ret same => kept ⟨congrArg _ ret, same.symm⟩
  | del key =>
    refine ampDelKey_spec.bind fun r => Spec.of_iSup fun b' => Spec.of_fact ?_
    rintro ⟨del, keeps⟩
    refine Spec.done _ (le_iSup_of_le b' (le_fact_mul ⟨?_, ?_⟩ le_rfl))
    · simp only [BoxOp.run, ← del]
    · exact fun e mem kept => keeps e mem fun ret same => kept ⟨congrArg _ ret, same.symm⟩
  | has key => exact Spec.look ampHasKey_returns (same rfl)
  | numKeys => exact Spec.look ampNumKeys_returns (same rfl)
  | get key =>
    refine Spec.look ampGetBuf_returns ?_
    rcases view : b.view key with err | ⟨buf, size⟩
    · refine same ?_
      simp only [BoxOp.run, view_error view, BoxReply.ofGet]
    · obtain ⟨e, mem, -, rfl, rfl, get⟩ := view_entry view
      refine Spec.look (readBuf_returns mem) (same ?_)
      simp only [BoxOp.run, get, BoxReply.ofGet]

/-! ## Calls on many boxes -/

/-- A call on one of `n` box variables: make a new box, in place of the old one if there is one;
free it; or perform an operation on it. -/
inductive BoxCall (n : Nat) where
  | create (i : Fin n)
  | release (i : Fin n)
  | op (i : Fin n) (op : BoxOp)

section Calls

variable {n : Nat}

/-- An application does not call an operation on a null pointer. -/
def callOn (a : BlockAllocator) (box : Ptr) (op : BoxOp) :
    Program (Option BoxReply × BlockAllocator) := do
  if box = 0 then return (none, a)
  else
    let (reply, a) ← runOp a box op
    return (some reply, a)

/-- Perform a call. -/
def runCall (hash : CString → UInt32) (a : BlockAllocator) (boxes : Fin n → Ptr) :
    BoxCall n → Program (Option BoxReply × (Fin n → Ptr) × BlockAllocator)
  | .create i => do
    ampFreeBox (boxes i)
    let (box, a) ← newBox hash a .box
    return (some (.code (if box = 0 then enomem else 0)), Function.update boxes i box, a)
  | .release i => do
    ampFreeBox (boxes i)
    return (none, Function.update boxes i 0, a)
  | .op i op => do
    let (reply, a) ← callOn a (boxes i) op
    return (reply, boxes, a)

/-- An operation on a map, if there is one. -/
def specOn (mem : Mem) (op : BoxOp) : Option BoxMap → Option BoxReply × Option BoxMap × Mem
  | none => (none, none, mem)
  | some m => (some (op.spec mem m).1, some (op.spec mem m).2.1, (op.spec mem m).2.2)

/-- The same call on finite maps. -/
def specCall (mem : Mem) (maps : Fin n → Option BoxMap) :
    BoxCall n → Option BoxReply × (Fin n → Option BoxMap) × Mem
  | .create i =>
    match malloc .box mem with
    | (false, mem) => (some (.code enomem), Function.update maps i none, mem)
    | (true, mem) => (some (.code 0), Function.update maps i (some ∅), mem)
  | .release i => (none, Function.update maps i none, mem)
  | .op i op =>
    ((specOn mem op (maps i)).1, Function.update maps i (specOn mem op (maps i)).2.1,
      (specOn mem op (maps i)).2.2)

def runCalls (hash : CString → UInt32) (a : BlockAllocator) (boxes : Fin n → Ptr) :
    List (BoxCall n) → Program (List (Option BoxReply) × (Fin n → Ptr) × BlockAllocator)
  | [] => pure ([], boxes, a)
  | call :: calls => do
    let (reply, boxes, a) ← runCall hash a boxes call
    let (replies, boxes, a) ← runCalls hash a boxes calls
    return (reply :: replies, boxes, a)

def specCalls (mem : Mem) (maps : Fin n → Option BoxMap) :
    List (BoxCall n) → List (Option BoxReply) × (Fin n → Option BoxMap) × Mem
  | [] => ([], maps, mem)
  | call :: calls =>
    let (reply, maps, mem) := specCall mem maps call
    let (replies, maps, mem) := specCalls mem maps calls
    (reply :: replies, maps, mem)

/-- `amp_free_box` on every variable. -/
def freeBoxes (boxes : Fin n → Ptr) : Program Unit :=
  (List.finRange n).forM fun i => ampFreeBox (boxes i)

/-! ### What the variables stand for -/

/-- A box variable and the map it stands for, if it is not null. `E` is what else is known of the
box. -/
def meant (E : LocatedBox → Prop) (p : Ptr) : Option BoxMap → Assertion Block
  | none => fact (p = 0)
  | some m => ⨆ b : LocatedBox, fact (b.toBox.WF ∧ b.toBox.toMap = m ∧ E b) * boxAt p b

/-- All box variables. -/
def held (E : Fin n → LocatedBox → Prop) (boxes : Fin n → Ptr) (maps : Fin n → Option BoxMap) :
    Assertion Block :=
  ∏ i, meant (E i) (boxes i) (maps i)

variable {E : Fin n → LocatedBox → Prop}

theorem held_update (boxes : Fin n → Ptr) (maps : Fin n → Option BoxMap) (i : Fin n) (p : Ptr)
    (m : Option BoxMap) :
    ∏ j, Function.update (fun j => meant (E j) (boxes j) (maps j)) i (meant (E i) p m) j =
      held E (Function.update boxes i p) (Function.update maps i m) := by
  refine Finset.prod_congr rfl fun j _ => ?_
  by_cases hj : j = i
  · subst hj
    simp only [Function.update_self]
  · simp only [Function.update_of_ne hj]

theorem free_spec (E : LocatedBox → Prop) (p : Ptr) (m : Option BoxMap) :
    Spec (meant E p m) (ampFreeBox p) fun _ => 1 := by
  cases m with
  | none =>
    rw [meant, ← mul_one (fact _)]
    refine Spec.of_fact ?_
    rintro rfl
    exact Spec.ret (fun _ => 1) ()
  | some m => exact Spec.of_iSup fun b => Spec.of_fact fun _ => ampFreeBox_spec p b

/-- On a box that stands for a map an operation is that of the map. -/
theorem callOn_spec {E : LocatedBox → Prop} (a : BlockAllocator) (p : Ptr) (m : Option BoxMap)
    (op : BoxOp)
    (keeps : ∀ b r b' mem', E b → Performs op a.serves b r b' mem' →
      (specOn a.serves op m).1 = some r → E b') :
    Spec (meant E p m) (callOn a p op) fun r =>
      fact (r.1 = (specOn a.serves op m).1 ∧ r.2.serves = (specOn a.serves op m).2.2) *
        meant E p (specOn a.serves op m).2.1 := by
  cases m with
  | none =>
    rw [meant, ← mul_one (fact _)]
    refine Spec.of_fact fun null => Spec.pos null (Spec.done _ (le_fact_mul ⟨rfl, rfl⟩ ?_))
    exact le_of_eq (fact_of null).symm
  | some m =>
    refine Spec.of_iSup fun b => Spec.of_fact ?_
    rintro ⟨wf, rfl, known⟩
    refine Spec.nonNull (struct_dvd p b) fun nonNull => Spec.neg nonNull ?_
    refine (runOp_spec a p b op).bind fun r => Spec.of_iSup fun b' =>
      Spec.of_fact fun performs => ?_
    obtain ⟨box', spec, wf', map⟩ := wf.run_spec a.serves op
    rw [performs.1] at spec
    obtain ⟨reply, rfl, mem⟩ : r.1 = _ ∧ b'.toBox = box' ∧ r.2.serves = _ := by simpa using spec
    have known' := keeps b r.1 b' r.2.serves known performs (congrArg some reply.symm)
    exact Spec.done _ (le_fact_mul ⟨congrArg some reply, mem⟩
      (le_iSup_of_le b' (le_fact_mul ⟨wf', map, known'⟩ le_rfl)))

/-- A new box in place of what a variable held. -/
theorem renew_spec {E : LocatedBox → Prop} (hash : CString → UInt32) (a : BlockAllocator) (p : Ptr)
    (m : Option BoxMap) (start : E (.new hash)) :
    Spec (meant E p m) (do ampFreeBox p; newBox hash a .box) fun r =>
      fact ((r.1 = 0 ↔ a.serves 0 .box = false) ∧ r.2 = a.drop 1) *
        meant E r.1 (if a.serves 0 .box then some ∅ else none) := by
  refine (free_spec E p m).bind fun _ => ?_
  rw [← bind_pure (newBox hash a .box)]
  refine newBox_spec (fun served q nonNull => ?_) fun refused => ?_
  · rw [if_pos served, mul_one]
    refine Spec.done _ (le_fact_mul ⟨by simp [nonNull, served], rfl⟩ ?_)
    exact le_iSup_of_le (LocatedBox.new hash)
      (le_fact_mul ⟨AmpBox.wf_new hash, AmpBox.toMap_new hash, start⟩ le_rfl)
  · rw [refused]
    refine Spec.done _ (le_fact_mul ⟨by simp, rfl⟩ (le_of_eq ?_))
    exact (fact_of rfl).symm

/-- The call keeps what is known of the boxes. -/
def Respects (E : Fin n → LocatedBox → Prop) (hash : CString → UInt32) (mem : Mem)
    (maps : Fin n → Option BoxMap) : BoxCall n → Prop
  | .create i => E i (.new hash)
  | .release _ => True
  | .op i op => ∀ b r b' mem', E i b → Performs op mem b r b' mem' →
      (specOn mem op (maps i)).1 = some r → E i b'

theorem runCall_spec (hash : CString → UInt32) (a : BlockAllocator) (boxes : Fin n → Ptr)
    (maps : Fin n → Option BoxMap) (call : BoxCall n)
    (respects : Respects E hash a.serves maps call) :
    Spec (held E boxes maps) (runCall hash a boxes call) fun r =>
      fact (r.1 = (specCall a.serves maps call).1 ∧
        r.2.2.serves = (specCall a.serves maps call).2.2) *
        held E r.2.1 (specCall a.serves maps call).2.1 := by
  cases call with
  | create i =>
    have renewed := Spec.focus (I := fun j => meant (E j) (boxes j) (maps j)) i
      (renew_spec hash a (boxes i) (maps i) respects)
    rw [runCall, ← bind_assoc]
    refine renewed.bind fun r => Spec.of_fact ?_
    obtain ⟨box, a'⟩ := r
    rintro ⟨null, rfl⟩
    rw [held_update]
    cases served : a.serves 0 .box with
    | false =>
      have null' : box = 0 := null.2 served
      refine Spec.done _ (le_fact_mul ⟨?_, ?_⟩ (le_of_eq ?_)) <;>
        simp [specCall, malloc, served, null']
    | true =>
      have nonNull : box ≠ 0 := fun h => by simp [null.1 h] at served
      refine Spec.done _ (le_fact_mul ⟨?_, ?_⟩ (le_of_eq ?_)) <;>
        simp [specCall, malloc, served, nonNull]
  | release i =>
    have freed : Spec (meant (E i) (boxes i) (maps i)) (ampFreeBox (boxes i)) fun _ =>
        fact True * meant (E i) 0 none :=
      (free_spec (E i) (boxes i) (maps i)).post fun _ =>
        le_fact_mul trivial (le_of_eq (fact_of rfl).symm)
    refine (Spec.focus (I := fun j => meant (E j) (boxes j) (maps j)) i freed).bind fun r =>
      Spec.of_fact fun _ => ?_
    rw [held_update]
    exact Spec.done _ (le_fact_mul ⟨rfl, rfl⟩ le_rfl)
  | op i op =>
    refine (Spec.focus (I := fun j => meant (E j) (boxes j) (maps j)) i
      (callOn_spec a (boxes i) (maps i) op respects)).bind fun r => Spec.of_fact fun result => ?_
    rw [held_update, Function.update_eq_self]
    exact Spec.done _ (le_fact_mul result le_rfl)

/-- Every call of a history does. -/
def RespectsAll (E : Fin n → LocatedBox → Prop) (hash : CString → UInt32) (mem : Mem)
    (maps : Fin n → Option BoxMap) : List (BoxCall n) → Prop
  | [] => True
  | call :: calls => Respects E hash mem maps call ∧
      RespectsAll E hash (specCall mem maps call).2.2 (specCall mem maps call).2.1 calls

theorem runCalls_spec (hash : CString → UInt32) (a : BlockAllocator) (boxes : Fin n → Ptr)
    (maps : Fin n → Option BoxMap) (calls : List (BoxCall n))
    (respects : RespectsAll E hash a.serves maps calls) :
    Spec (held E boxes maps) (runCalls hash a boxes calls) fun r =>
      fact (r.1 = (specCalls a.serves maps calls).1 ∧
        r.2.2.serves = (specCalls a.serves maps calls).2.2) *
        held E r.2.1 (specCalls a.serves maps calls).2.1 := by
  induction calls generalizing a boxes maps with
  | nil => exact Spec.done _ (le_fact_mul ⟨rfl, rfl⟩ le_rfl)
  | cons call calls ih =>
    refine (runCall_spec hash a boxes maps call respects.1).bind fun r => Spec.of_fact ?_
    rintro ⟨reply, mem⟩
    refine (ih r.2.2 r.2.1 _ (mem ▸ respects.2)).bind fun s => Spec.of_fact ?_
    rintro ⟨replies, rest⟩
    rw [mem] at replies rest ⊢
    refine Spec.done _ (le_fact_mul ⟨?_, rest⟩ le_rfl)
    rw [reply, replies]
    rfl

theorem freeBoxes_spec (boxes : Fin n → Ptr) (maps : Fin n → Option BoxMap) :
    Spec (held E boxes maps) (freeBoxes boxes) fun _ => 1 := by
  have freed := Spec.forM (R := 1) (I := fun i => meant (E i) (boxes i) (maps i)) (J := fun _ => 1)
    (f := fun i => ampFreeBox (boxes i)) (List.finRange n) fun i _ => by
      rw [one_mul, one_mul]
      exact free_spec (E i) (boxes i) (maps i)
  rw [← Fin.prod_univ_def, one_mul] at freed
  refine freed.post fun _ => le_of_eq ?_
  rw [List.map_const', List.prod_replicate, one_pow, mul_one]

/-! ### From nothing to nothing -/

/-- Nothing is known of the boxes but the maps they stand for. -/
def anything : Fin n → LocatedBox → Prop := fun _ _ => True

theorem respectsAll_anything (hash : CString → UInt32) (mem : Mem)
    (maps : Fin n → Option BoxMap) (calls : List (BoxCall n)) :
    RespectsAll anything hash mem maps calls := by
  induction calls generalizing mem maps with
  | nil => trivial
  | cons call calls ih =>
    refine ⟨?_, ih _ _⟩
    cases call with
    | create i => trivial
    | release i => trivial
    | op i op => exact fun _ _ _ _ _ _ _ => trivial

theorem nothing_held (E : Fin n → LocatedBox → Prop) :
    (1 : Assertion Block) ≤ held E (fun _ => 0) fun _ => none := by
  rw [held, ← Finset.prod_const_one (s := (Finset.univ : Finset (Fin n)))]
  exact Assertion.prod_mono fun _ _ => le_of_eq (fact_of rfl).symm

/-- Whatever is called on some boxes, with whichever allocations failing and wherever the blocks
are placed: nothing faults, every reply is that of finite maps, and freeing the boxes gives back
the heap there was before. -/
theorem boxes_refine_maps (hash : CString → UInt32) (a : BlockAllocator) (calls : List (BoxCall n))
    (h : Blocks Block) :
    ∃ replies boxes a' h', runCalls hash a (fun _ => 0) calls h = .ok ((replies, boxes, a'), h') ∧
      replies = (specCalls a.serves (fun _ : Fin n => none) calls).1 ∧
      freeBoxes boxes h' = .ok ((), h) := by
  obtain ⟨⟨replies, boxes, a'⟩, h', run, own⟩ :=
    (runCalls_spec hash a (fun _ => 0) (fun _ => none) calls
      (respectsAll_anything _ _ _ _)).run_beside (nothing_held _) h
  rw [mul_assoc] at own
  obtain ⟨⟨replies', -⟩, own⟩ := fact_mul.1 own
  refine ⟨replies, boxes, a', h', run, replies', ?_⟩
  obtain ⟨_, h'', freed, own⟩ := freeBoxes_spec boxes _ _ h' own
  rw [one_mul] at own
  exact own ▸ freed

/-! ### How long a buffer is valid -/

/-- The call, with this reply, has done away with the buffer of a key of box `i`. -/
def Invalidates (i : Fin n) (key : CString) (call : BoxCall n) (reply : Option BoxReply) : Prop :=
  match call with
  | .create j => j = i
  | .release j => j = i
  | .op j op => j = i ∧ ∃ r, reply = some r ∧ Releases op r key

/-- No call of a history does, given the replies of the maps. -/
def Untouched (i : Fin n) (key : CString) (mem : Mem) (maps : Fin n → Option BoxMap) :
    List (BoxCall n) → Prop
  | [] => True
  | call :: calls => ¬ Invalidates i key call (specCall mem maps call).1 ∧
      Untouched i key (specCall mem maps call).2.2 (specCall mem maps call).2.1 calls

/-- Get a buffer, make some calls, and read the buffer only then. -/
def viewAcross (hash : CString → UInt32) (a : BlockAllocator) (boxes : Fin n → Ptr) (i : Fin n)
    (key : CString) (calls : List (BoxCall n)) : Program (Option (List UInt8)) := do
  match ← ampGetBuf (boxes i) key with
  | .error _ => return none
  | .ok (buf, size) =>
    let _ ← runCalls hash a boxes calls
    return some (← readBuf buf size)

/-- Box `i` has this binding. -/
def hasEntry (i : Fin n) (e : Entry) : Fin n → LocatedBox → Prop :=
  fun j b => j = i → e ∈ b.entries

theorem respectsAll_hasEntry {i : Fin n} {e : Entry} {hash : CString → UInt32} {mem : Mem}
    {maps : Fin n → Option BoxMap} {calls : List (BoxCall n)}
    (untouched : Untouched i e.ghost.key mem maps calls) :
    RespectsAll (hasEntry i e) hash mem maps calls := by
  induction calls generalizing mem maps with
  | nil => trivial
  | cons call calls ih =>
    refine ⟨?_, ih untouched.2⟩
    have kept := untouched.1
    cases call with
    | create j => exact fun same => absurd same kept
    | release j => trivial
    | op j op =>
      intro b r b' mem' known performs reply same
      exact performs.2 e (known same) fun releases => kept ⟨same, r, reply, releases⟩

/-- The box is still there. -/
theorem some_of_untouched {i : Fin n} {key : CString} {mem : Mem} {maps : Fin n → Option BoxMap}
    {calls : List (BoxCall n)} (untouched : Untouched i key mem maps calls)
    (alive : (maps i).isSome) : ((specCalls mem maps calls).2.1 i).isSome := by
  induction calls generalizing mem maps with
  | nil => exact alive
  | cons call calls ih =>
    refine ih untouched.2 ?_
    have kept := untouched.1
    cases call with
    | create j =>
      have other : i ≠ j := fun same => kept same.symm
      simp only [malloc]
      cases mem 0 .box <;> simpa [Function.update_of_ne other] using alive
    | release j =>
      have other : i ≠ j := fun same => kept same.symm
      simpa [specCall, Function.update_of_ne other] using alive
    | op j op =>
      by_cases same : i = j
      · subst same
        obtain ⟨m, hm⟩ := Option.isSome_iff_exists.1 alive
        simp [specOn, hm]
      · simpa [specCall, Function.update_of_ne same] using alive

/-- The variables but one. -/
def heldBut (E : Fin n → LocatedBox → Prop) (boxes : Fin n → Ptr) (maps : Fin n → Option BoxMap)
    (i : Fin n) : Assertion Block :=
  ∏ j ∈ Finset.univ \ {i}, meant (E j) (boxes j) (maps j)

theorem held_eq (boxes : Fin n → Ptr) (maps : Fin n → Option BoxMap) (i : Fin n) :
    held E boxes maps = meant (E i) (boxes i) (maps i) * heldBut E boxes maps i := by
  rw [held, heldBut, Finset.sdiff_singleton_eq_erase,
    Finset.mul_prod_erase Finset.univ (fun j => meant (E j) (boxes j) (maps j)) (Finset.mem_univ i)]

theorem heldBut_anything (boxes : Fin n → Ptr) (maps : Fin n → Option BoxMap) (i : Fin n)
    (e : Entry) : heldBut anything boxes maps i ≤ heldBut (hasEntry i e) boxes maps i := by
  refine Assertion.prod_mono fun j other => ?_
  cases maps j with
  | none => exact le_rfl
  | some m =>
    refine iSup_mono fun b => mul_mono (fact_mono fun known => ⟨known.1, known.2.1, ?_⟩) le_rfl
    exact fun same => absurd same (by simpa using other)

theorem viewAcross_spec (hash : CString → UInt32) (a : BlockAllocator) (boxes : Fin n → Ptr)
    (maps : Fin n → Option BoxMap) (i : Fin n) (key : CString) (calls : List (BoxCall n))
    {m : BoxMap} (alive : maps i = some m) (untouched : Untouched i key a.serves maps calls) :
    Spec (held anything boxes maps) (viewAcross hash a boxes i key calls) fun r =>
      fact (r = m.lookup key) * ⊤ := by
  rw [held_eq boxes maps i, alive, meant, iSup_mul]
  refine Spec.of_iSup fun b => ?_
  rw [mul_assoc]
  refine Spec.of_fact ?_
  rintro ⟨wf, map, -⟩
  refine Spec.look (ampGetBuf_returns.frame _) ?_
  have get : LibAmp.ampGetBuf b.toBox key = _ := wf.getBuf
  rw [map] at get
  rcases view : b.view key with err | ⟨buf, size⟩
  · rw [view_error view] at get
    refine Spec.done _ (le_fact_mul ?_ le_top)
    cases found : m.lookup key with
    | none => rfl
    | some value => simp [found] at get
  · obtain ⟨e, mem, rfl, rfl, rfl, got⟩ := view_entry view
    have found : m.lookup e.ghost.key = some e.ghost.value := by
      rw [got] at get
      cases found : m.lookup e.ghost.key with
      | none => simp [found] at get
      | some value => simpa [found] using get.symm
    have start : boxAt (boxes i) b * heldBut anything boxes maps i ≤
        held (hasEntry i e) boxes maps := by
      rw [held_eq boxes maps i, alive]
      exact mul_mono (le_iSup_of_le b (le_fact_mul ⟨wf, map, fun _ => mem⟩ le_rfl))
        (heldBut_anything boxes maps i e)
    have ran := runCalls_spec hash a boxes maps calls (respectsAll_hasEntry untouched)
    refine (ran.conseq start fun _ => le_rfl).bind fun r => Spec.of_fact fun _ => ?_
    obtain ⟨m', alive'⟩ := Option.isSome_iff_exists.1
      (some_of_untouched untouched (by rw [alive]; rfl))
    rw [held_eq _ _ i, alive', meant, iSup_mul]
    refine Spec.of_iSup fun b' => ?_
    rw [mul_assoc]
    refine Spec.of_fact fun known => ?_
    refine Spec.look ((readBuf_returns (known.2.2 rfl)).frame _) ?_
    exact Spec.done _ (le_fact_mul found.symm le_top)

/-- A buffer handed out by box `i` still holds, after any calls that neither store its key anew
nor delete it nor free the box, the value it held when it was handed out. -/
theorem view_stable (hash : CString → UInt32) (a : BlockAllocator)
    (before after : List (BoxCall n)) (i : Fin n) (key : CString) (h : Blocks Block) {m : BoxMap}
    (alive : (specCalls a.serves (fun _ => none) before).2.1 i = some m)
    (untouched : Untouched i key (specCalls a.serves (fun _ => none) before).2.2
      (specCalls a.serves (fun _ => none) before).2.1 after) :
    ∃ replies boxes a' h₁ h₂,
      runCalls hash a (fun _ => 0) before h = .ok ((replies, boxes, a'), h₁) ∧
      viewAcross hash a' boxes i key after h₁ = .ok (m.lookup key, h₂) := by
  obtain ⟨⟨replies, boxes, a'⟩, h₁, run, own⟩ :=
    (runCalls_spec hash a (fun _ => 0) (fun _ => none) before
      (respectsAll_anything _ _ _ _)).run_beside (nothing_held _) h
  rw [mul_assoc] at own
  obtain ⟨⟨-, mem⟩, own⟩ := fact_mul.1 own
  rw [← mem] at untouched
  obtain ⟨r, h₂, viewed, own⟩ :=
    viewAcross_spec hash a' boxes _ i key after alive untouched _ h₁ own
  rw [mul_assoc] at own
  obtain ⟨rfl, -⟩ := fact_mul.1 own
  exact ⟨replies, boxes, a', h₁, h₂, run, viewed⟩

/-- The value of `a` is read after another key has been stored. -/
theorem view_stable_other_key :
    let a : CString := ⟨[97], by decide⟩
    let b : CString := ⟨[98], by decide⟩
    let before : List (BoxCall 1) := [.create 0, .op 0 (.put a [1] 1 (by decide))]
    ∃ replies boxes a' h₁ h₂,
      runCalls hashString Allocator.bump (fun _ => 0) before ∅ =
        .ok ((replies, boxes, a'), h₁) ∧
      viewAcross hashString a' boxes 0 a [.op 0 (.put b [2] 1 (by decide))] h₁ =
        .ok (some [1], h₂) := by
  intro a b before
  have untouched : Untouched 0 a (specCalls plenty (fun _ => none) before).2.2
      (specCalls plenty (fun _ => none) before).2.1 [.op 0 (.put b [2] 1 (by decide))] := by
    refine ⟨?_, trivial⟩
    rintro ⟨-, -, -, -, same⟩
    exact absurd same (by decide)
  exact view_stable hashString Allocator.bump before _ 0 a ∅ (m := Finmap.insert a [1] ∅) rfl
    untouched

end Calls

end LibAmp.OnHeap
