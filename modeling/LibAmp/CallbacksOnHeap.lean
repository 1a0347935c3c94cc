import LibAmp.TableRefines
import LibAmp.BoxOnHeap

/-!
# Callbacks and responders on the heap (`dispatch.c`)

The two maps of a proto with their pointers. The key of a binding of the callback map points into
the callback that was registered first under that key, even when the binding has another callback
by now; the key of a binding of the responder map is the name given by the application.

## Main definitions

* `callbacksAt`, `respondersAt` — the blocks of a map, and those it has lost track of.

## Main results

* `ampPutCallback_spec`, `ampPutResponder_spec` — what a key was registered for before is lost.
* `ampFreeCallbackMap_spec`, `ampFreeResponderMap_spec` — everything else is freed.
-/

namespace LibAmp.OnHeap

open Heap Linked Separation Assertion

/-! ## Callbacks -/

/-- The address of the `ask_key` field is given by that of the callback. -/
def callbackKeys : KeyFns UInt32 where
  load p := do return (← readAs viewCallback p).askKey.toUInt32
  cmp := cmpCallbackKey
  hash := hashCallbackKey

/-- The `ask_key` field is not set yet. -/
def ampNewCallback (a : BlockAllocator) (func arg : Nat) : Program (Ptr × BlockAllocator) := do
  let (cb, a) ← alloc a .callback .raw
  if cb = 0 then return (0, a)
  else
    write cb (.callback { askKey := 0, func := func, arg := arg })
    return (cb, a)

def ampNewCallbackMap (a : BlockAllocator) : Program (Ptr × BlockAllocator) := tableNew a 0

def ampPutCallback (a : BlockAllocator) (cbMap : Ptr) (askKey : Int32) (callback : Ptr) :
    Program (AmpError × BlockAllocator) := do
  let cb ← readAs viewCallback callback
  write callback (.callback { cb with askKey := askKey })
  tablePut callbackKeys a cbMap callback callback

def ampPopCallback (cbMap : Ptr) (askKey : Int32) : Program Ptr :=
  tableRemove callbackKeys cbMap askKey.toUInt32

def ampFreeCallbackMap (cbMap : Ptr) : Program Unit := tableFree cbMap

def ampFreeCallback (callback : Ptr) : Program Unit := free callback

/-! ## Responders -/

def responderKeys : KeyFns CString where
  load := readAs viewText
  cmp := cmpResponderKey
  hash := hashResponderKey

/-- The `command` field is not set yet. -/
def ampNewResponder (a : BlockAllocator) (func arg : Nat) : Program (Ptr × BlockAllocator) := do
  let (resp, a) ← alloc a .responder .raw
  if resp = 0 then return (0, a)
  else
    write resp (.responder 0 func arg)
    return (resp, a)

def ampNewResponderMap (a : BlockAllocator) : Program (Ptr × BlockAllocator) := tableNew a 0

/-- What `Table_put` returns is dropped. -/
def ampPutResponder (a : BlockAllocator) (respMap command responder : Ptr) :
    Program BlockAllocator := do
  let (_, func, arg) ← readAs viewResponder responder
  write responder (.responder command func arg)
  let (_, a) ← tablePut responderKeys a respMap command responder
  return a

def ampGetResponder (respMap : Ptr) (command : CString) : Program Ptr :=
  tableGet responderKeys respMap command

/-- The responder for a command, if there is one: `responder->func` and `responder->arg`. -/
def findResponder (respMap : Ptr) (command : CString) : Program (Option (Nat × Nat)) := do
  let responder ← ampGetResponder respMap command
  if responder = 0 then return none
  else
    let (_, func, arg) ← readAs viewResponder responder
    return some (func, arg)

def ampFreeResponder (responder : Ptr) : Program Unit := free responder

/-- `_amp_remove_responder`. -/
def ampRemoveResponderBinding (respMap : Ptr) (command : CString) : Program Unit := do
  let resp ← tableRemove responderKeys respMap command
  if resp ≠ 0 then ampFreeResponder resp

def ampFreeResponderMap (respMap : Ptr) : Program Unit := tableFree respMap

/-! ## The blocks of a callback map -/

def ownsCallback (q : Ptr) (cb : Callback) : Assertion Block := cell q (.callback cb)

/-- Callbacks that are in no binding any more. -/
def oldCallbacks (old : List (Ptr × Callback)) : Assertion Block :=
  (old.map fun c => ownsCallback c.1 c.2).prod

/-- The key of a binding points into its callback, or into one that was lost. -/
structure KeyKept (old : List (Ptr × Callback)) (e : TableEntry UInt32 Callback) : Prop where
  own : e.ghost.value.askKey.toUInt32 = e.ghost.key
  points : e.data.1 = e.data.2 ∨
    ∃ c ∈ old, c.1 = e.data.1 ∧ c.2.askKey.toUInt32 = e.ghost.key

/-- The callback map at `p`, and the callbacks that were lost. -/
def callbacksAt (p : Ptr) (cbMap : CallbackMap) (lost : List Callback) : Assertion Block :=
  ⨆ t : LocatedTable UInt32 Callback, ⨆ old : List (Ptr × Callback),
    fact ((t.toTable callbackKeys = cbMap ∧ cbMap.WF) ∧
      old.map (·.2) = lost ∧ ∀ e ∈ t.entries, KeyKept old e) *
      (tableAt ownsCallback p t * oldCallbacks old)

theorem oldCallbacks_le (old : List (Ptr × Callback)) :
    oldCallbacks old ≤ scattered ownsCallback (old.map (·.2)) := by
  induction old with
  | nil => exact le_rfl
  | cons c old ih =>
    rw [List.map_cons, scattered_cons, oldCallbacks, List.map_cons, List.prod_cons]
    exact mul_mono (le_somewhere _ _ _) ih

section Callbacks

variable {P : Assertion Block} {p q : Ptr} {cbMap : CallbackMap} {lost : List Callback}
  {t : LocatedTable UInt32 Callback} {old : List (Ptr × Callback)} {cb : Callback}

theorem callback_load_returns (part : ownsCallback q cb ∣ P) :
    Returns P (callbackKeys.load q) cb.askKey.toUInt32 :=
  (Returns.readAs viewCallback part rfl).bind (Returns.ret P _)

theorem KeyKept.readable (kept : ∀ e ∈ t.entries, KeyKept old e)
    (table : tableAt ownsCallback p t ∣ P) (olds : oldCallbacks old ∣ P) :
    Readable callbackKeys P t := by
  intro e mem
  obtain ⟨own, same | ⟨c, hc, addr, key⟩⟩ := kept e mem
  · rw [same, ← own]
    exact callback_load_returns (table_value_dvd table mem)
  · rw [← addr, ← key]
    exact callback_load_returns ((List.dvd_prod (List.mem_map.2 ⟨c, hc, rfl⟩)).trans olds)

/-- A callback that was displaced from its binding, which keeps pointing to its key. -/
theorem KeyKept.displace {e : TableEntry UInt32 Callback} (kept : KeyKept old e)
    (own : cb.askKey.toUInt32 = e.ghost.key) :
    KeyKept ((e.data.2, e.ghost.value) :: old) (LocatedTable.withValue q cb e) := by
  refine ⟨own, .inr ?_⟩
  rcases kept.points with same | ⟨c, hc, addr, key⟩
  · exact ⟨_, List.mem_cons_self, same.symm, kept.own⟩
  · exact ⟨c, List.mem_cons_of_mem _ hc, addr, key⟩

theorem KeyKept.mono {e : TableEntry UInt32 Callback} (kept : KeyKept old e)
    (c : Ptr × Callback) : KeyKept (c :: old) e :=
  ⟨kept.own, kept.points.imp_right fun ⟨c, hc, same⟩ => ⟨c, List.mem_cons_of_mem _ hc, same⟩⟩

variable (old) in
theorem le_callbacksAt (table : t.toTable callbackKeys = cbMap ∧ cbMap.WF)
    (kept : ∀ e ∈ t.entries, KeyKept old e) :
    tableAt ownsCallback p t * oldCallbacks old ≤ callbacksAt p cbMap (old.map (·.2)) :=
  le_iSup_of_le t (le_iSup_of_le old (le_fact_mul ⟨table, rfl, kept⟩ le_rfl))

/-- The same, when the callback of a key is the one at `q`. -/
def callbackHeld (p : Ptr) (cbMap : CallbackMap) (lost : List Callback) (key : UInt32) (q : Ptr) :
    Assertion Block :=
  ⨆ t : LocatedTable UInt32 Callback, ⨆ old : List (Ptr × Callback),
    fact ((∃ e, t.find callbackKeys key = some e ∧ e.data.2 = q) ∧
      (t.toTable callbackKeys = cbMap ∧ cbMap.WF) ∧
      old.map (·.2) = lost ∧ ∀ e ∈ t.entries, KeyKept old e) *
      (tableAt ownsCallback p t * oldCallbacks old)

variable (old) in
theorem le_callbackHeld {key : UInt32} {e : TableEntry UInt32 Callback}
    (found : t.find callbackKeys key = some e) (value : e.data.2 = q)
    (table : t.toTable callbackKeys = cbMap ∧ cbMap.WF) (kept : ∀ e ∈ t.entries, KeyKept old e) :
    tableAt ownsCallback p t * oldCallbacks old ≤ callbackHeld p cbMap (old.map (·.2)) key q :=
  le_iSup_of_le t (le_iSup_of_le old (le_fact_mul ⟨⟨e, found, value⟩, table, rfl, kept⟩ le_rfl))

theorem Spec.of_callbacksAt {α : Type} {F : Assertion Block} {c : Program α}
    {Q : α → Assertion Block}
    (spec : ∀ t old, t.toTable callbackKeys = cbMap ∧ cbMap.WF → old.map (·.2) = lost →
      (∀ e ∈ t.entries, KeyKept old e) →
      Spec (tableAt ownsCallback p t * (oldCallbacks old * F)) c Q) :
    Spec (callbacksAt p cbMap lost * F) c Q := by
  simp only [callbacksAt, iSup_mul, mul_assoc]
  refine Spec.of_iSup fun t => Spec.of_iSup fun old => Spec.of_fact ?_
  rintro ⟨table, same, kept⟩
  exact spec t old table same kept

theorem nonNull_callbacks : NonNull p (callbacksAt p cbMap lost) :=
  NonNull.iSup fun _ => NonNull.iSup fun _ =>
    (((nonNull_cell p _).mul_right _).mul_right _).mul_left _

variable (p cbMap lost cb) in
/-- Registering a callback: the one registered under the key before is lost. -/
theorem ampPutCallback_spec (a : BlockAllocator) (askKey : Int32) :
    Spec (callbacksAt p cbMap lost * ownsCallback q cb) (ampPutCallback a p askKey q) fun r =>
      fact ((r.1, r.2.serves) = ((LibAmp.ampPutCallback a.serves cbMap askKey cb).1,
        (LibAmp.ampPutCallback a.serves cbMap askKey cb).2.2)) *
      if r.1 = 0 then
        callbackHeld p (LibAmp.ampPutCallback a.serves cbMap askKey cb).2.1
          ((LibAmp.tableGet cbMap askKey.toUInt32).toList ++ lost) askKey.toUInt32 q
      else
        callbacksAt p (LibAmp.ampPutCallback a.serves cbMap askKey cb).2.1
          ((LibAmp.tableGet cbMap askKey.toUInt32).toList ++ lost) *
          ownsCallback q { cb with askKey := askKey } := by
  refine Spec.of_callbacksAt ?_
  rintro t old ⟨rfl, wf⟩ rfl kept
  obtain ⟨cb', stored⟩ : ∃ cb', cb' = { cb with askKey := askKey } := ⟨_, rfl⟩
  have own : cb'.askKey.toUInt32 = askKey.toUInt32 := by rw [stored]
  have put : LibAmp.ampPutCallback a.serves (t.toTable callbackKeys) askKey cb =
      LibAmp.tablePut a.serves (t.toTable callbackKeys) askKey.toUInt32 cb' := by rw [stored]; rfl
  have wf' := (wf.put a.serves askKey.toUInt32 cb').1
  refine Spec.look (Returns.readAs viewCallback ((dvd_mul_left _ _).mul_left _) rfl) ?_
  rw [← stored]
  refine Spec.step (Spec.write q (Block.callback cb) (.callback cb'))
    (F := tableAt ownsCallback p t * oldCallbacks old) ?_ fun _ => ?_
  · rw [ownsCallback]
    ac_rfl
  refine Spec.rearrange
    (mul_left_comm (ownsCallback q cb') (tableAt ownsCallback p t) (oldCallbacks old)) ?_
  have table : tableAt ownsCallback p t ∣
      tableAt ownsCallback p t * (ownsCallback q cb' * oldCallbacks old) := dvd_mul_right _ _
  have mine : ownsCallback q cb' ∣
      tableAt ownsCallback p t * (ownsCallback q cb' * oldCallbacks old) :=
    (dvd_mul_right _ _).mul_left _
  have olds : oldCallbacks old ∣
      tableAt ownsCallback p t * (ownsCallback q cb' * oldCallbacks old) :=
    (dvd_mul_left _ _).mul_left _
  rw [put, ← bind_pure (tablePut callbackKeys a p q q)]
  refine tablePut_spec (KeyKept.readable kept table olds) (own ▸ callback_load_returns mine)
    (fun e found => ?_) (fun absent served q' => ?_) fun absent refused => ?_
  · rw [LocatedTable.tablePut_found found a.serves q] at wf' ⊢
    rw [tableGet_find, found]
    refine Spec.done _ (le_fact_mul rfl ?_)
    rw [if_pos rfl]
    have key : askKey.toUInt32 = e.ghost.key :=
      (cmpCallbackKey_lawful _ _).1 (isKey_of_find found)
    refine le_trans (le_of_eq ?_) (le_callbackHeld ((e.data.2, e.ghost.value) :: old)
      (find_replace found q cb') rfl ⟨rfl, wf'⟩ fun e' mem => ?_)
    · rw [oldCallbacks, oldCallbacks, List.map_cons, List.prod_cons]
    · rcases mem_replace found mem with rfl | mem
      · exact (kept e (mem_entries_of_find found)).displace (own.trans key)
      · exact (kept e' mem).mono _
  · rw [LocatedTable.tablePut_absent absent a.serves q' q q] at wf' ⊢
    rw [malloc, served] at wf' ⊢
    rw [tableGet_find, absent]
    refine Spec.done _ (le_fact_mul rfl ?_)
    rw [if_pos rfl]
    have new : (t.link callbackKeys q' q q ⟨askKey.toUInt32, cb'⟩).find callbackKeys
        askKey.toUInt32 = some ⟨q', (q, q), ⟨askKey.toUInt32, cb'⟩⟩ :=
      find_link q' q q ((cmpCallbackKey_lawful _ _).2 rfl)
    refine le_callbackHeld old new rfl ⟨rfl, wf'⟩ fun e' mem => ?_
    rcases mem_link mem with rfl | mem
    · exact ⟨own, .inl rfl⟩
    · exact kept e' mem
  · rw [LocatedTable.tablePut_absent absent a.serves q q q]
    rw [malloc, refused, tableGet_find, absent]
    refine Spec.done _ (le_fact_mul rfl ?_)
    rw [if_neg enomem_ne_zero, mul_comm (ownsCallback q cb'), ← mul_assoc]
    exact mul_mono (le_callbacksAt old ⟨rfl, wf⟩ kept) le_rfl

variable (p cbMap lost) in
/-- Taking a callback out of the map hands it over. -/
theorem ampPopCallback_spec (askKey : Int32) :
    Spec (callbacksAt p cbMap lost) (ampPopCallback p askKey) fun q =>
      callbacksAt p (LibAmp.ampPopCallback cbMap askKey).2 lost *
        nullable ownsCallback q (LibAmp.ampPopCallback cbMap askKey).1 := by
  rw [← mul_one (callbacksAt p cbMap lost)]
  refine Spec.of_callbacksAt ?_
  rintro t old ⟨rfl, wf⟩ rfl kept
  rw [mul_one, ampPopCallback, ← bind_pure (tableRemove callbackKeys p askKey.toUInt32)]
  have wf' := (wf.remove askKey.toUInt32).2.1
  refine tableRemove_spec
    (KeyKept.readable kept (dvd_mul_right _ _) (dvd_mul_left _ _)) (fun absent => ?_)
    fun e found => ?_
  · rw [LibAmp.ampPopCallback, LocatedTable.tableRemove_absent absent]
    refine Spec.done _ ?_
    rw [nullable, fact_of rfl, mul_one]
    exact le_callbacksAt old ⟨rfl, wf⟩ kept
  · rw [LibAmp.ampPopCallback, LocatedTable.tableRemove_found found] at *
    refine Spec.done _ ?_
    rw [nullable, mul_comm (ownsCallback _ _), ← mul_assoc]
    exact mul_mono (le_callbacksAt old ⟨rfl, wf'⟩ fun e' mem => kept e' (mem_unlink mem)) le_rfl

theorem callbackHeld_le {key : UInt32} :
    callbackHeld p cbMap lost key q ≤ callbacksAt p cbMap lost :=
  iSup_mono fun _ => iSup_mono fun _ => mul_mono (fact_mono And.right) le_rfl

/-- Taking a callback out of the map hands over the one that was put in. -/
theorem popHeld_spec (askKey : Int32) :
    Spec (callbackHeld p cbMap lost askKey.toUInt32 q) (ampPopCallback p askKey) fun r =>
      fact (r = q) * (callbacksAt p (LibAmp.ampPopCallback cbMap askKey).2 lost *
        nullable ownsCallback q (LibAmp.ampPopCallback cbMap askKey).1) := by
  refine Spec.of_iSup fun t => Spec.of_iSup fun old => Spec.of_fact ?_
  rintro ⟨⟨e, found, rfl⟩, ⟨rfl, wf⟩, rfl, kept⟩
  rw [ampPopCallback, ← mul_one (tableAt ownsCallback p t * oldCallbacks old), mul_assoc,
    ← bind_pure (tableRemove callbackKeys p askKey.toUInt32)]
  have wf' := (wf.remove askKey.toUInt32).2.1
  refine tableRemove_spec
    (KeyKept.readable kept (dvd_mul_right _ _) ((dvd_mul_right _ _).mul_left _)) (fun absent => ?_)
    fun e' found' => ?_
  · rw [absent] at found
    cases found
  · obtain rfl : e' = e := Option.some.inj (found'.symm.trans found)
    rw [LibAmp.ampPopCallback, LocatedTable.tableRemove_found found] at *
    refine Spec.done _ (le_fact_mul rfl ?_)
    rw [nullable, mul_one, mul_comm (ownsCallback _ _), ← mul_assoc]
    exact mul_mono (le_callbacksAt old ⟨rfl, wf'⟩ fun e' mem => kept e' (mem_unlink mem)) le_rfl

/-- Freeing the map frees all callbacks but those that were lost. -/
theorem ampFreeCallbackMap_spec :
    Spec (callbacksAt p cbMap lost) (ampFreeCallbackMap p) fun _ =>
      scattered ownsCallback lost := by
  rw [← mul_one (callbacksAt p cbMap lost)]
  refine Spec.of_callbacksAt ?_
  rintro t old ⟨rfl, wf⟩ rfl -
  rw [mul_one]
  refine ((tableFree_spec p t (LocatedTable.length_of_wf wf) fun q cb =>
    Spec.free q (Block.callback cb)).frame (oldCallbacks old)).post fun _ => ?_
  rw [one_mul]
  exact oldCallbacks_le old

/-- A new callback, or the null pointer. -/
theorem ampNewCallback_spec {β : Type} {S : β → Assertion Block} {a : BlockAllocator}
    {func arg : Nat} {k : Ptr × BlockAllocator → Program β}
    (served : a.serves 0 .callback = true → ∀ q, q ≠ 0 →
      Spec (ownsCallback q ⟨0, func, arg⟩ * P) (k (q, a.drop 1)) S)
    (refused : a.serves 0 .callback = false → Spec P (k (0, a.drop 1)) S) :
    Spec P (ampNewCallback a func arg >>= k) S := by
  simp only [ampNewCallback, bind_assoc, ite_bind, pure_bind]
  refine Spec.alloc (fun serves q nonNull => Spec.neg nonNull ?_) fun refuses =>
    Spec.pos rfl (refused refuses)
  exact Spec.step (Spec.write q _ _) rfl fun _ => served serves q nonNull

/-- The map `_amp_new_callback_map` makes. -/
def noCallbacks : CallbackMap :=
  (LocatedTable.new UInt32 Callback 127 buckets_pos).toTable callbackKeys

theorem ampNewCallbackMap_eq (mem : Mem) :
    LibAmp.ampNewCallbackMap mem =
      .ok (if mem 0 .table then some noCallbacks else none, fun n => mem (n + 1)) :=
  tableNew_eq callbackKeys mem buckets_pos tableSize_zero

theorem ampNewCallbackMap_spec {β : Type} {S : β → Assertion Block} {a : BlockAllocator}
    {k : Ptr × BlockAllocator → Program β}
    (served : a.serves 0 .table = true → ∀ p, p ≠ 0 →
      Spec (callbacksAt p noCallbacks [] * P) (k (p, a.drop 1)) S)
    (refused : a.serves 0 .table = false → Spec P (k (0, a.drop 1)) S) :
    Spec P (ampNewCallbackMap a >>= k) S := by
  refine tableNew_spec ownsCallback (K := UInt32) buckets_pos tableSize_zero
    (fun serves p nonNull => ?_) refused
  refine (served serves p nonNull).conseq (mul_mono ?_ le_rfl) fun _ => le_rfl
  have new := LocatedTable.wf_new callbackKeys cmpCallbackKey_lawful (V := Callback) buckets_pos
  refine le_trans (le_of_eq ?_) (le_callbacksAt [] ⟨rfl, new⟩ fun e mem => ?_)
  · exact (mul_one _).symm
  · simp [LocatedTable.entries, LocatedTable.new, Buckets.entries] at mem

end Callbacks

/-! ## The blocks of a responder map -/

/-- The name it was registered under belongs to the application. -/
def ownsResponder (q : Ptr) (r : Responder) : Assertion Block :=
  ⨆ command, cell q (.responder command r.func r.arg)

/-- The command names of an application, and where they are. -/
def textsAt (texts : List (Ptr × CString)) : Assertion Block :=
  (texts.map fun l => cell l.1 (.text l.2)).prod

theorem exact_texts (texts : List (Ptr × CString)) (others : Blocks Block) :
    Exact (textsAt texts * only others) := by
  induction texts with
  | nil => simpa [textsAt] using exact_only others
  | cons l texts ih =>
    rw [textsAt, List.map_cons, List.prod_cons, mul_assoc]
    exact ih.cell_mul _ _

/-- The responder map at `p`, whose keys are among the given names, and the responders that were
lost. -/
def respondersAt (texts : List (Ptr × CString)) (p : Ptr) (respMap : ResponderMap)
    (lost : List Responder) : Assertion Block :=
  ⨆ t : LocatedTable CString Responder,
    fact ((t.toTable responderKeys = respMap ∧ respMap.WF) ∧
      ∀ e ∈ t.entries, (e.data.1, e.ghost.key) ∈ texts) *
      (tableAt ownsResponder p t * scattered ownsResponder lost)

section Responders

variable {P : Assertion Block} {texts : List (Ptr × CString)} {p q command : Ptr}
  {respMap : ResponderMap} {lost : List Responder} {t : LocatedTable CString Responder}
  {name : CString} {func arg : Nat}

theorem text_returns (mem : (command, name) ∈ texts) (part : textsAt texts ∣ P) :
    Returns P (responderKeys.load command) name :=
  Returns.readAs viewText ((List.dvd_prod (List.mem_map.2 ⟨_, mem, rfl⟩)).trans part) rfl

theorem readable_texts (named : ∀ e ∈ t.entries, (e.data.1, e.ghost.key) ∈ texts)
    (part : textsAt texts ∣ P) : Readable responderKeys P t :=
  fun e mem => text_returns (named e mem) part

variable (lost) in
theorem le_respondersAt (table : t.toTable responderKeys = respMap ∧ respMap.WF)
    (named : ∀ e ∈ t.entries, (e.data.1, e.ghost.key) ∈ texts) :
    tableAt ownsResponder p t * scattered ownsResponder lost ≤
      respondersAt texts p respMap lost :=
  le_iSup_of_le t (le_fact_mul ⟨table, named⟩ le_rfl)

theorem Spec.of_respondersAt {α : Type} {F : Assertion Block} {c : Program α}
    {Q : α → Assertion Block}
    (spec : ∀ t, t.toTable responderKeys = respMap ∧ respMap.WF →
      (∀ e ∈ t.entries, (e.data.1, e.ghost.key) ∈ texts) →
      Spec (tableAt ownsResponder p t * (scattered ownsResponder lost * F)) c Q) :
    Spec (respondersAt texts p respMap lost * F) c Q := by
  simp only [respondersAt, iSup_mul, mul_assoc]
  refine Spec.of_iSup fun t => Spec.of_fact ?_
  rintro ⟨table, named⟩
  exact spec t table named

/-- A responder that nothing leads to any more. -/
theorem lose_le (table : t.toTable responderKeys = respMap ∧ respMap.WF)
    (named : ∀ e ∈ t.entries, (e.data.1, e.ghost.key) ∈ texts) (r : Responder) :
    tableAt ownsResponder p t * (ownsResponder q r * (scattered ownsResponder lost * P)) ≤
      respondersAt texts p respMap (r :: lost) * P := by
  rw [← mul_assoc (ownsResponder q r), ← mul_assoc]
  refine mul_mono (le_trans (mul_mono le_rfl ?_) (le_respondersAt (r :: lost) table named)) le_rfl
  rw [scattered_cons]
  exact mul_mono (le_somewhere _ _ _) le_rfl

/-- The responders that `_amp_put_responder` loses: the one registered under the name before, or
the new one if there is no memory to register it. -/
def responderLost (mem : Mem) (respMap : ResponderMap) (r : Responder) : List Responder :=
  if (LibAmp.ampPutResponder mem respMap r).1 = 0 then
    (LibAmp.ampGetResponder respMap r.command).toList
  else [r]

variable (respMap lost func arg) in
/-- Registering a responder under one of the application's names. -/
theorem ampPutResponder_spec (a : BlockAllocator) (named : (command, name) ∈ texts) (old : Ptr) :
    Spec (respondersAt texts p respMap lost *
        (cell q (.responder old func arg) * textsAt texts))
      (ampPutResponder a p command q) fun a' =>
      fact (a'.serves =
        (LibAmp.ampPutResponder a.serves respMap ⟨name, func, arg⟩).2.2) *
      (respondersAt texts p (LibAmp.ampPutResponder a.serves respMap ⟨name, func, arg⟩).2.1
        (responderLost a.serves respMap ⟨name, func, arg⟩ ++ lost) * textsAt texts) := by
  refine Spec.of_respondersAt ?_
  rintro t ⟨rfl, wf⟩ keys
  have put : LibAmp.ampPutResponder a.serves (t.toTable responderKeys) ⟨name, func, arg⟩ =
      LibAmp.tablePut a.serves (t.toTable responderKeys) name ⟨name, func, arg⟩ := rfl
  have wf' := (wf.put a.serves name ⟨name, func, arg⟩).1
  refine Spec.look (Returns.readAs viewResponder
    (((dvd_mul_right _ _).mul_left _).mul_left _) rfl) ?_
  refine Spec.step (Spec.write q (Block.responder old func arg) (.responder command func arg))
    (F := tableAt ownsResponder p t * (scattered ownsResponder lost * textsAt texts)) ?_
    fun _ => ?_
  · ac_rfl
  have owned : cell q (.responder command func arg) ≤ ownsResponder q ⟨name, func, arg⟩ :=
    le_iSup (fun command => cell q (Block.responder command func arg)) command
  have texts' : textsAt texts ∣ tableAt ownsResponder p t * (ownsResponder q ⟨name, func, arg⟩ *
      (scattered ownsResponder lost * textsAt texts)) :=
    ((dvd_mul_left _ _).mul_left _).mul_left _
  refine Spec.conseq (P := tableAt ownsResponder p t * (ownsResponder q ⟨name, func, arg⟩ *
    (scattered ownsResponder lost * textsAt texts))) ?_ ?_ fun _ => le_rfl
  · rw [responderLost, put]
    refine tablePut_spec (readable_texts keys texts') (text_returns named texts')
      (fun e found => ?_) (fun absent served q' => ?_) fun absent refused => ?_
    · rw [LocatedTable.tablePut_found found a.serves q] at wf' ⊢
      have registered : LibAmp.ampGetResponder (t.toTable responderKeys) name =
          some e.ghost.value := by
        rw [LibAmp.ampGetResponder, tableGet_find, found]
        rfl
      refine Spec.done _ (le_fact_mul rfl ?_)
      rw [if_pos rfl, registered]
      refine lose_le ⟨rfl, wf'⟩ (fun e' mem => ?_) e.ghost.value
      rcases mem_replace found mem with rfl | mem
      · exact keys e (mem_entries_of_find found)
      · exact keys e' mem
    · rw [LocatedTable.tablePut_absent absent a.serves q' command q] at wf' ⊢
      rw [malloc, served] at wf' ⊢
      have free : LibAmp.ampGetResponder (t.toTable responderKeys) name = none := by
        rw [LibAmp.ampGetResponder, tableGet_find, absent]
        rfl
      refine Spec.done _ (le_fact_mul rfl ?_)
      rw [if_pos rfl, free, ← mul_assoc]
      refine mul_mono (le_respondersAt lost ⟨rfl, wf'⟩ fun e' mem => ?_) le_rfl
      rcases mem_link mem with rfl | mem
      · exact named
      · exact keys e' mem
    · rw [LocatedTable.tablePut_absent absent a.serves q command q]
      rw [malloc, refused]
      refine Spec.done _ (le_fact_mul rfl ?_)
      rw [if_neg enomem_ne_zero]
      exact lose_le ⟨rfl, wf⟩ keys _
  · rw [mul_left_comm]
    exact mul_mono le_rfl (mul_mono owned le_rfl)

/-- A new responder, or the null pointer. -/
theorem ampNewResponder_spec {β : Type} {S : β → Assertion Block} {a : BlockAllocator}
    {k : Ptr × BlockAllocator → Program β}
    (served : a.serves 0 .responder = true → ∀ q, q ≠ 0 →
      Spec (cell q (.responder 0 func arg) * P) (k (q, a.drop 1)) S)
    (refused : a.serves 0 .responder = false → Spec P (k (0, a.drop 1)) S) :
    Spec P (ampNewResponder a func arg >>= k) S := by
  simp only [ampNewResponder, bind_assoc, ite_bind, pure_bind]
  refine Spec.alloc (fun serves q nonNull => Spec.neg nonNull ?_) fun refuses =>
    Spec.pos rfl (refused refuses)
  exact Spec.step (Spec.write q _ _) rfl fun _ => served serves q nonNull

/-- The map `_amp_new_responder_map` makes. -/
def noResponders : ResponderMap :=
  (LocatedTable.new CString Responder 127 buckets_pos).toTable responderKeys

theorem ampNewResponderMap_eq (mem : Mem) :
    LibAmp.ampNewResponderMap mem =
      .ok (if mem 0 .table then some noResponders else none, fun n => mem (n + 1)) :=
  tableNew_eq responderKeys mem buckets_pos tableSize_zero

variable (texts) in
theorem ampNewResponderMap_spec {β : Type} {S : β → Assertion Block} {a : BlockAllocator}
    {k : Ptr × BlockAllocator → Program β}
    (served : a.serves 0 .table = true → ∀ p, p ≠ 0 →
      Spec (respondersAt texts p noResponders [] * P) (k (p, a.drop 1)) S)
    (refused : a.serves 0 .table = false → Spec P (k (0, a.drop 1)) S) :
    Spec P (ampNewResponderMap a >>= k) S := by
  refine tableNew_spec ownsResponder (K := CString) buckets_pos tableSize_zero
    (fun serves p nonNull => ?_) refused
  refine (served serves p nonNull).conseq (mul_mono ?_ le_rfl) fun _ => le_rfl
  have new := LocatedTable.wf_new responderKeys cmpResponderKey_lawful (V := Responder) buckets_pos
  refine le_trans (le_of_eq ?_) (le_respondersAt [] ⟨rfl, new⟩ fun e mem => ?_)
  · exact (mul_one _).symm
  · simp [LocatedTable.entries, LocatedTable.new, Buckets.entries] at mem

variable (texts p respMap lost name) in
/-- Looking a command up. -/
theorem findResponder_returns :
    Returns (respondersAt texts p respMap lost * textsAt texts) (findResponder p name)
      ((LibAmp.ampGetResponder respMap name).map fun r => (r.func, r.arg)) := by
  simp only [respondersAt, iSup_mul, mul_assoc]
  refine Returns.of_iSup fun t => Returns.of_fact ?_
  rintro ⟨⟨rfl, -⟩, keys⟩
  have table := dvd_mul_right (tableAt ownsResponder p t)
    (scattered ownsResponder lost * textsAt texts)
  refine (tableGet_returns (readable_texts keys ((dvd_mul_left _ _).mul_left _)) table).bind ?_
  rw [LibAmp.ampGetResponder, tableGet_find]
  cases found : t.find responderKeys name with
  | none => exact Returns.pos rfl (Returns.ret _ _)
  | some e =>
    obtain ⟨R, own⟩ := table_value_dvd table (mem_entries_of_find found)
    rw [own, ownsResponder, iSup_mul]
    refine Returns.of_iSup fun command => ?_
    have part := dvd_mul_right (cell e.data.2
      (Block.responder command e.ghost.value.func e.ghost.value.arg)) R
    refine Returns.nonNull part fun nonNull => Returns.neg nonNull ?_
    exact (Returns.readAs viewResponder part rfl).bind (Returns.ret _ _)

variable (texts p respMap lost name) in
/-- Removing a responder frees it. -/
theorem removeResponder_spec :
    Spec (respondersAt texts p respMap lost * textsAt texts) (ampRemoveResponderBinding p name)
      fun _ => respondersAt texts p (LibAmp.ampRemoveResponderBinding respMap name) lost *
        textsAt texts := by
  refine Spec.of_respondersAt ?_
  rintro t ⟨rfl, wf⟩ keys
  have wf' := (wf.remove name).2.1
  refine tableRemove_spec (readable_texts keys ((dvd_mul_left _ _).mul_left _)) (fun absent => ?_)
    fun e found => ?_
  · refine Spec.done _ ?_
    rw [LibAmp.ampRemoveResponderBinding, LocatedTable.tableRemove_absent absent, ← mul_assoc]
    exact mul_mono (le_respondersAt lost ⟨rfl, wf⟩ keys) le_rfl
  · rw [LibAmp.ampRemoveResponderBinding, LocatedTable.tableRemove_found found] at *
    rw [mul_left_comm, ownsResponder, iSup_mul]
    refine Spec.of_iSup fun command => ?_
    refine Spec.nonNull (dvd_mul_right _ _) fun nonNull => Spec.pos nonNull ?_
    refine ((Spec.free e.data.2 _).frame _).post fun _ => ?_
    rw [one_mul, ← mul_assoc]
    exact mul_mono (le_respondersAt lost ⟨rfl, wf'⟩ fun e' mem => keys e' (mem_unlink mem)) le_rfl

/-- Freeing the map frees all responders but those that were lost. -/
theorem ampFreeResponderMap_spec :
    Spec (respondersAt texts p respMap lost) (ampFreeResponderMap p) fun _ =>
      scattered ownsResponder lost := by
  rw [← mul_one (respondersAt texts p respMap lost)]
  refine Spec.of_respondersAt ?_
  rintro t ⟨rfl, wf⟩ -
  rw [mul_one]
  refine ((tableFree_spec p t (LocatedTable.length_of_wf wf) fun q r =>
    Spec.of_iSup fun command => Spec.free q (Block.responder command r.func r.arg)).frame
    (scattered ownsResponder lost)).post fun _ => ?_
  rw [one_mul]

end Responders

end LibAmp.OnHeap
