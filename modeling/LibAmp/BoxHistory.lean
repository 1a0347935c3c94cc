import LibAmp.Lib.Ledger
import LibAmp.BoxMap

/-!
# Operation histories of a box

Any sequence of operations on a fresh box, under any hash function and any pattern of failing
allocations, answers as the finite map does (`box_refines_map`). `Built` is what such a history
can leave behind.
-/

namespace LibAmp

/-- One call on a box. The caller of a put owns a buffer of at least `bufSize` bytes. -/
inductive BoxOp where
  | put (key : CString) (buf : List UInt8) (bufSize : Int) (room : bufSize ≤ buf.length)
  | del (key : CString)
  | has (key : CString)
  | get (key : CString)
  | numKeys

/-- What a call hands back: a status or number, or the bytes found. -/
inductive BoxReply where
  | code (ret : Int)
  | value (buf : List UInt8)
  deriving DecidableEq, Repr

def BoxReply.ofGet : Except AmpError (List UInt8) → BoxReply
  | .ok buf => .value buf
  | .error err => .code err

namespace BoxOp

/-- Perform one call on a box pointer. -/
def run (mem : Mem) : Option AmpBox → BoxOp → Except Fault (BoxReply × Option AmpBox × Mem)
  | box, put key buf bufSize _ =>
    match ampPutBuf mem box key buf bufSize with
    | .error e => .error e
    | .ok r => .ok (.code r.ret, r.box, r.mem)
  | none, _ => .error .nullDereference
  | some box, del key => .ok (.code (ampDelKey box key).2, some (ampDelKey box key).1, mem)
  | some box, has key => .ok (.code (ampHasKey box key), some box, mem)
  | some box, get key => .ok (.ofGet (ampGetBuf box key), some box, mem)
  | some box, numKeys => .ok (.code (ampNumKeys box), some box, mem)

/-- The same call on a finite map. -/
def spec (mem : Mem) (m : BoxMap) : BoxOp → BoxReply × BoxMap × Mem
  | put key buf bufSize _ =>
    (.code (BoxMap.put mem m key buf bufSize).1, (BoxMap.put mem m key buf bufSize).2)
  | del key => (.code (if key ∈ m then 0 else -1), m.erase key, mem)
  | has key => (.code (if key ∈ m then 1 else 0), m, mem)
  | get key =>
    (match m.lookup key with
      | some buf => .value buf
      | none => .code ampKeyNotFound, m, mem)
  | numKeys => (.code m.keys.card, m, mem)

/-- What a caller may rely on: how the reply and the map afterwards follow from the map
before. An error of a put names its cause and changes nothing. -/
def Contract (mem : Mem) (m : BoxMap) (reply : BoxReply) (m' : BoxMap) : BoxOp → Prop
  | put key buf bufSize _ =>
    (reply = .code 0 ∧ 0 < strlen key ∧ strlen key ≤ maxKeyLength ∧ 0 ≤ bufSize ∧
        bufSize ≤ maxValueLength ∧ m' = m.insert key (buf.take bufSize.toNat)) ∨
      (m' = m ∧
        (reply = .code ampBadKeySize ∧ (strlen key = 0 ∨ strlen key > maxKeyLength) ∨
          reply = .code ampBadValSize ∧ (bufSize < 0 ∨ bufSize > maxValueLength) ∨
          reply = .code enomem ∧ (mem 0 .keyval = false ∨ mem 1 .binding = false)))
  | del key =>
    (key ∈ m ∧ reply = .code 0 ∧ m' = m.erase key) ∨ (key ∉ m ∧ reply = .code (-1) ∧ m' = m)
  | has key =>
    m' = m ∧ ((∃ buf, m.lookup key = some buf) ∧ reply = .code 1 ∨
      m.lookup key = none ∧ reply = .code 0)
  | get key =>
    m' = m ∧ ((∃ buf, m.lookup key = some buf ∧ reply = .value buf) ∨
      m.lookup key = none ∧ reply = .code ampKeyNotFound)
  | numKeys => m' = m ∧ reply = .code m.keys.card

end BoxOp

/-- Perform the calls in order and collect the replies. -/
def runHistory (mem : Mem) (box : Option AmpBox) :
    List BoxOp → Except Fault (List BoxReply × Option AmpBox × Mem)
  | [] => .ok ([], box, mem)
  | op :: ops =>
    match op.run mem box with
    | .error e => .error e
    | .ok (reply, box, mem) =>
      match runHistory mem box ops with
      | .error e => .error e
      | .ok (replies, box, mem) => .ok (reply :: replies, box, mem)

def specHistory (mem : Mem) (m : BoxMap) : List BoxOp → List BoxReply × BoxMap × Mem
  | [] => ([], m, mem)
  | op :: ops =>
    let (reply, m, mem) := op.spec mem m
    let (replies, m, mem) := specHistory mem m ops
    (reply :: replies, m, mem)

/-- A box some history of calls on a fresh box has left behind. -/
def AmpBox.Built (box : AmpBox) : Prop :=
  ∃ mem ops replies mem', runHistory mem (some (AmpBox.new hashString)) ops =
    .ok (replies, some box, mem')

/-! ## One call -/

theorem AmpBox.WF.run_spec {box : AmpBox} (wf : box.WF) (mem : Mem) (op : BoxOp) :
    ∃ box', op.run mem (some box) =
        .ok ((op.spec mem box.toMap).1, some box', (op.spec mem box.toMap).2.2) ∧
      box'.WF ∧ box'.toMap = (op.spec mem box.toMap).2.1 := by
  cases op with
  | put key buf bufSize room =>
    obtain ⟨box', run, wf', map⟩ := wf.putBuf mem key room
    exact ⟨box', by simp [BoxOp.run, BoxOp.spec, run], wf', map⟩
  | del key =>
    obtain ⟨wf', map, ret⟩ := wf.delKey key
    exact ⟨_, by simp [BoxOp.run, BoxOp.spec, ret], wf', map⟩
  | has key => exact ⟨box, by simp [BoxOp.run, BoxOp.spec, wf.hasKey], wf, rfl⟩
  | get key =>
    refine ⟨box, ?_, wf, rfl⟩
    simp only [BoxOp.run, BoxOp.spec, wf.getBuf]
    cases box.toMap.lookup key <;> rfl
  | numKeys => exact ⟨box, by simp [BoxOp.run, BoxOp.spec, wf.numKeys], wf, rfl⟩

/-- Every exit of a put, with what sent it there. -/
theorem BoxMap.put_cases (m : BoxMap) (mem : Mem) (key : CString) (buf : List UInt8)
    (bufSize : Int) :
    ((strlen key = 0 ∨ strlen key > maxKeyLength) ∧
        m.put mem key buf bufSize = (ampBadKeySize, m, mem)) ∨
      ((bufSize < 0 ∨ bufSize > maxValueLength) ∧
        m.put mem key buf bufSize = (ampBadValSize, m, mem)) ∨
      ((mem 0 .keyval = false ∨ mem 1 .binding = false) ∧
        (m.put mem key buf bufSize).1 = enomem ∧ (m.put mem key buf bufSize).2.1 = m) ∨
      ((0 < strlen key ∧ strlen key ≤ maxKeyLength ∧ 0 ≤ bufSize ∧ bufSize ≤ maxValueLength) ∧
        (m.put mem key buf bufSize).1 = 0 ∧
        (m.put mem key buf bufSize).2.1 = m.insert key (buf.take bufSize.toNat)) := by
  by_cases hkey : strlen key > maxKeyLength ∨ strlen key = 0
  · exact .inl ⟨hkey.symm, by simp [BoxMap.put, hkey]⟩
  by_cases hval : bufSize > maxValueLength ∨ bufSize < 0
  · exact .inr (.inl ⟨hval.symm, by simp [BoxMap.put, hkey, hval]⟩)
  refine .inr (.inr ?_)
  have bounds : 0 < strlen key ∧ strlen key ≤ maxKeyLength ∧ 0 ≤ bufSize ∧
      bufSize ≤ maxValueLength := by omega
  simp only [BoxMap.put, hkey, hval, ↓reduceIte, malloc]
  cases mem 0 .keyval with
  | false => exact .inl ⟨.inl rfl, rfl, rfl⟩
  | true =>
    by_cases present : key ∈ m
    · simp only [present, ↓reduceIte]
      exact .inr ⟨bounds, trivial, trivial⟩
    · cases hbinding : mem 1 .binding with
      | false => exact .inl ⟨.inr rfl, by simp [present, hbinding]⟩
      | true => exact .inr ⟨bounds, by simp [present, hbinding]⟩

/-- The map operations keep the contract. -/
theorem BoxOp.contract_spec (mem : Mem) (m : BoxMap) (op : BoxOp) :
    op.Contract mem m (op.spec mem m).1 (op.spec mem m).2.1 := by
  cases op with
  | put key buf bufSize room =>
    simp only [Contract, spec]
    rcases m.put_cases mem key buf bufSize with ⟨hkey, h⟩ | ⟨hval, h⟩ | ⟨hmem, h⟩ | ⟨bounds, h⟩
    · exact .inr ⟨congrArg (·.2.1) h, .inl ⟨by rw [h], hkey⟩⟩
    · exact .inr ⟨congrArg (·.2.1) h, .inr (.inl ⟨by rw [h], hval⟩)⟩
    · exact .inr ⟨h.2, .inr (.inr ⟨by rw [h.1], hmem⟩)⟩
    · exact .inl ⟨by rw [h.1], bounds.1, bounds.2.1, bounds.2.2.1, bounds.2.2.2, h.2⟩
  | del key =>
    by_cases present : key ∈ m
    · exact .inl ⟨present, by simp [spec, present], rfl⟩
    · refine .inr ⟨present, by simp [spec, present], ?_⟩
      apply Finmap.ext_lookup
      intro k
      by_cases hk : k = key
      · subst hk
        rw [spec, Finmap.lookup_erase, Finmap.lookup_eq_none.2 present]
      · rw [spec, Finmap.lookup_erase_ne hk]
  | has key =>
    refine ⟨rfl, ?_⟩
    by_cases present : key ∈ m
    · exact .inl ⟨Finmap.mem_iff.1 present, by simp [spec, present]⟩
    · exact .inr ⟨Finmap.lookup_eq_none.2 present, by simp [spec, present]⟩
  | get key =>
    refine ⟨rfl, ?_⟩
    rcases h : m.lookup key with _ | buf
    · exact .inr ⟨rfl, by simp [spec, h]⟩
    · exact .inl ⟨buf, rfl, by simp [spec, h]⟩
  | numKeys => exact ⟨rfl, rfl⟩

/-! ## A whole history -/

theorem AmpBox.WF.runHistory {box : AmpBox} (wf : box.WF) (mem : Mem) (ops : List BoxOp) :
    ∃ box', LibAmp.runHistory mem (some box) ops =
        .ok ((specHistory mem box.toMap ops).1, some box',
          (specHistory mem box.toMap ops).2.2) ∧
      box'.WF ∧ box'.toMap = (specHistory mem box.toMap ops).2.1 := by
  induction ops generalizing box mem with
  | nil => exact ⟨box, rfl, wf, rfl⟩
  | cons op ops ih =>
    obtain ⟨box₁, run₁, wf₁, map₁⟩ := wf.run_spec mem op
    obtain ⟨box₂, run₂, wf₂, map₂⟩ := ih wf₁ (op.spec mem box.toMap).2.2
    rw [map₁] at run₂ map₂
    exact ⟨box₂, by simp only [LibAmp.runHistory, run₁, run₂, specHistory], wf₂, map₂⟩

/-! ## How many keys -/

theorem BoxMap.card_put_le (mem : Mem) (m : BoxMap) (key : CString) (buf : List UInt8)
    (bufSize : Int) : (m.put mem key buf bufSize).2.1.keys.card ≤ m.keys.card + 1 := by
  have insert (value : List UInt8) : (m.insert key value).keys.card ≤ m.keys.card + 1 := by
    by_cases present : key ∈ m
    · have same : (m.insert key value).keys = m.keys := by
        ext k
        by_cases hk : k = key <;> simp [Finmap.mem_keys, hk, present]
      rw [same]
      exact Nat.le_succ _
    · exact (Ledger.card_insert (Finmap.lookup_eq_none.2 present)).le
  unfold BoxMap.put
  split
  · exact Nat.le_succ _
  split
  · exact Nat.le_succ _
  split
  · exact Nat.le_succ _
  split
  · exact insert _
  split
  · exact Nat.le_succ _
  · exact insert _

/-- A call adds at most one key. -/
theorem BoxOp.card_spec_le (mem : Mem) (m : BoxMap) (op : BoxOp) :
    (op.spec mem m).2.1.keys.card ≤ m.keys.card + 1 := by
  cases op with
  | put key buf bufSize room => exact BoxMap.card_put_le mem m key buf bufSize
  | del key =>
    rw [spec, Finmap.keys_erase]
    exact Finset.card_erase_le.trans (Nat.le_succ _)
  | has key => exact Nat.le_succ _
  | get key => exact Nat.le_succ _
  | numKeys => exact Nat.le_succ _

theorem card_specHistory_le (mem : Mem) (m : BoxMap) (ops : List BoxOp) :
    (specHistory mem m ops).2.1.keys.card ≤ m.keys.card + ops.length := by
  induction ops generalizing mem m with
  | nil => exact le_rfl
  | cons op ops ih =>
    have first := op.card_spec_le mem m
    have rest := ih (op.spec mem m).2.2 (op.spec mem m).2.1
    refine Nat.le_trans rest ?_
    rw [List.length_cons]
    omega

/-- After fewer than 2³¹ calls an `int` holds the number of keys. -/
theorem numKeys_toInt32 (hash : CString → UInt32) (mem : Mem) {ops : List BoxOp}
    (few : ops.length < 2 ^ 31) {box : AmpBox} {replies : List BoxReply} {mem' : Mem}
    (run : runHistory mem (some (AmpBox.new hash)) ops = .ok (replies, some box, mem')) :
    (Int32.ofInt (ampNumKeys box)).toInt = ampNumKeys box := by
  obtain ⟨box', run', wf, map⟩ := (AmpBox.wf_new hash).runHistory mem ops
  rw [run'] at run
  obtain ⟨-, rfl, -⟩ : _ ∧ box' = box ∧ _ := by simpa using run
  have card := card_specHistory_le mem (AmpBox.new hash).toMap ops
  rw [AmpBox.toMap_new, Finmap.keys_empty, Finset.card_empty, ← AmpBox.toMap_new, ← map] at card
  rw [wf.numKeys]
  exact Int32.toInt_ofInt_of_le (by omega) (by omega)

/-! ## What a history leaves -/

theorem AmpBox.Built.wf {box : AmpBox} (built : box.Built) : box.WF := by
  obtain ⟨mem, ops, replies, mem', run⟩ := built
  obtain ⟨box', run', wf', -⟩ := (wf_new hashString).runHistory mem ops
  rw [run'] at run
  injection run with h
  obtain ⟨-, rfl, -⟩ : _ ∧ box' = box ∧ _ := by simpa using h
  exact wf'

/-- Every history of calls on a fresh box replies as a finite map does, and the box it leaves
is laid out properly; whatever is called next then keeps the contract of the map. -/
theorem box_refines_map (hash : CString → UInt32) (mem : Mem) (ops : List BoxOp) :
    ∃ box replies mem',
      runHistory mem (some (AmpBox.new hash)) ops = .ok (replies, some box, mem') ∧
      (replies, box.toMap, mem') = specHistory mem ∅ ops ∧
      (∀ i, ∀ p ∈ box.buckets i, box.bucketOf p.key = i) ∧
      (box.entries.map (·.key)).Nodup ∧
      (∀ p ∈ box.entries, p.keySize = strlen p.key) ∧
      box.length = box.entries.length ∧
      ∀ op : BoxOp, ∃ reply box' mem'', op.run mem' (some box) = .ok (reply, some box', mem'') ∧
        op.Contract mem' box.toMap reply box'.toMap ∧
        ampNumKeys box' = box'.toMap.keys.card := by
  obtain ⟨box, run, wf, map⟩ := (AmpBox.wf_new hash).runHistory mem ops
  rw [AmpBox.toMap_new] at run map
  refine ⟨box, _, _, run, by rw [map], wf.chains.placed, wf.chains.nodup_entries,
    fun p _ => p.keySize_eq, wf.length_eq, ?_⟩
  intro op
  obtain ⟨box', run', wf', map'⟩ := wf.run_spec _ op
  exact ⟨_, box', _, run', map' ▸ op.contract_spec _ _, wf'.numKeys⟩

end LibAmp
