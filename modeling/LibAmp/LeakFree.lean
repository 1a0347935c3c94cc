import Mathlib.Logic.Relation
import LibAmp.UsageOnHeap

/-!
# Sessions that leave nothing behind

The library forgets a callback if its ask key wraps around, a responder if another one is
registered under its name or if there is no memory to register it, and a box if one is in the proto
when a callback or a responder returns. A session of fewer than 2³² calls that avoids the other two
gives the heap back as it was.

## Main results

* `Client.Clean.step`, `Client.Clean.run` — ask keys are fresh, and a proto that waits for user
  code has no box.
* `session_leaves_nothing` — the heap after the session is the heap before it.
-/

namespace LibAmp

open OnHeap (Application Object Forgotten keeping displaced responderLost)
open WhileLoop (Turn Outcome TurnOutcome)

variable {U : Type}

/-! ## Completing calls -/

/-- Some callbacks are taken out, and nothing else changes. -/
def Dispatcher.Pops : Dispatcher → Dispatcher → Prop :=
  Relation.ReflTransGen fun proto proto' => ∃ key, proto' = proto.popped key

theorem Dispatcher.Pops.popped (proto : Dispatcher) (key : UInt32) :
    proto.Pops (proto.popped key) :=
  .single ⟨key, rfl⟩

/-- No key becomes outstanding. -/
theorem Dispatcher.Pops.kept {proto proto' : Dispatcher} (pops : proto.Pops proto')
    (wf : proto.WF) : proto'.WF ∧ proto'.lastAskKey = proto.lastAskKey ∧
      ∀ key ∈ proto'.outstanding, key ∈ proto.outstanding := by
  induction pops with
  | refl => exact ⟨wf, rfl, fun _ mem => mem⟩
  | tail _ last ih =>
    obtain ⟨key, rfl⟩ := last
    obtain ⟨wf', asked, keys⟩ := ih
    obtain ⟨wf'', erased⟩ := wf'.popped key
    refine ⟨wf'', asked, fun k mem => keys k ?_⟩
    rw [erased] at mem
    exact (Finmap.mem_erase.1 mem).2

section Completing

variable {write : WriteHandler U} {d : Dispatcher} {held : Option AmpBox} {mem : Mem} {own : U}

theorem completeCall_pops (askKey : Int32) (result : AmpResult) (unknown : Int) :
    d.Pops (completeCall d held mem own askKey result unknown).proto := by
  have same : (completeCall d held mem own askKey result unknown).proto =
      d.popped askKey.toUInt32 := by
    unfold completeCall ampPopCallback Dispatcher.popped
    rcases tableRemove d.outstandingRequests askKey.toUInt32 with ⟨_ | cb, table⟩
    · rfl
    · rcases malloc .result mem with ⟨_ | _, mem'⟩ <;> rfl
  exact same ▸ .popped d _

theorem ampProcessFullPacket_pops {box : AmpBox} {p : Progressed U}
    (run : ampProcessFullPacket write d held mem box own = .ok p) : d.Pops p.proto := by
  unfold ampProcessFullPacket at run
  split at run
  · obtain rfl := Except.ok.inj run
    exact .refl
  split at run
  · split at run
    · obtain rfl := Except.ok.inj run
      exact .refl
    · split at run
      · obtain rfl := Except.ok.inj run
        exact .refl
      split at run
      · obtain rfl := Except.ok.inj run
        exact .refl
      split at run
      · cases run
      · obtain rfl := Except.ok.inj run
        exact .refl
  split at run
  · split at run
    · obtain rfl := Except.ok.inj run
      exact .refl
    · obtain rfl := Except.ok.inj run
      exact completeCall_pops _ _ _
  split at run
  · split at run
    · obtain rfl := Except.ok.inj run
      exact .refl
    · obtain rfl := Except.ok.inj run
      exact completeCall_pops _ _ _
  · obtain rfl := Except.ok.inj run
    exact .refl

/-- How `amp_consume_bytes` leaves the proto: without a box while it waits for user code. -/
def Pumped.Leaves (d : Dispatcher) : Pumped U → Prop
  | .done _ now => d.Pops now.own.1
  | .stopped _ s => d.Pops s.now.own.1 ∧ s.now.proto.box = none

theorem dispatchUpTo_leaves {s : ConsumeLoop (Dispatcher × U)} (pops : d.Pops s.now.own.1) :
    Outcome (fun _ => True) (TurnOutcome (fun t => d.Pops t.now.own.1) (Pumped.Leaves d))
      (dispatchUpTo write s) := by
  unfold dispatchUpTo
  split
  · trivial
  split
  · trivial
  next p processed =>
  have after := pops.trans (ampProcessFullPacket_pops processed)
  dsimp only
  split
  · unfold afterDispatch
    split
    · exact after
    · exact after
  · next invocation reached =>
    exact ⟨after, OnHeap.box_of_processed processed (.inr ⟨invocation, reached⟩)⟩

theorem pumpTurn_leaves {s : ConsumeLoop (Dispatcher × U)} (pops : d.Pops s.now.own.1) :
    Outcome (fun _ => True) (TurnOutcome (fun t => d.Pops t.now.own.1) (Pumped.Leaves d))
      (pumpTurn write s) := by
  unfold pumpTurn
  split
  · exact pops
  split
  · trivial
  dsimp only
  split
  · exact dispatchUpTo_leaves pops
  · split
    · exact pops
    · exact pops

theorem pump_leaves {s : ConsumeLoop (Dispatcher × U)} {p : Pumped U}
    (pops : d.Pops s.now.own.1) (run : pump write s = .ok p) : p.Leaves d :=
  WhileLoop.run_left (fun s => d.Pops s.now.own.1) (fun _ pops => pumpTurn_leaves pops) pops run

end Completing

/-! ## Making calls -/

/-- A call that has taken an ask key may leave a callback under it, and changes no other key. -/
structure Called.Registers (proto : Dispatcher) (v : Called U) : Prop where
  wf : v.proto.WF
  asked : v.askKey = none ∧ v.proto.lastAskKey = proto.lastAskKey ∨
    v.askKey = some (proto.lastAskKey + 1) ∧ v.proto.lastAskKey = proto.lastAskKey + 1
  keys : ∀ key ∈ v.proto.outstanding, key ∈ proto.outstanding ∨ v.askKey = some key

section Calling

variable {write : WriteHandler U} {proto d : Dispatcher} {mem : Mem} {own : U}
  {cb : Option Callback} {askKey : Int32} {askKeyRet : Option UInt32} {v : Called U}

theorem callFailed_pops (ret : Int) (args : Option AmpBox) :
    (callFailed ret askKey cb d args mem own askKeyRet).askKey = askKeyRet ∧
      d.Pops (callFailed ret askKey cb d args mem own askKeyRet).proto := by
  cases cb with
  | none => exact ⟨rfl, .refl⟩
  | some cb => exact ⟨rfl, .popped d askKey.toUInt32⟩

theorem callWrite_pops {args : AmpBox}
    (run : callWrite write askKey cb d args mem own askKeyRet = .ok v) :
    v.askKey = askKeyRet ∧ d.Pops v.proto := by
  unfold callWrite at run
  split at run
  · cases run
  · obtain rfl := Except.ok.inj run
    exact callFailed_pops _ _
  · split at run
    · cases run
    · obtain rfl := Except.ok.inj run
      exact ⟨rfl, .refl⟩

/-- A call that gives up before it takes an ask key. -/
theorem Called.Registers.early (wf : proto.WF) (ret : Int) (args : Option AmpBox) :
    (callFailed ret (-1) none proto args mem own none).Registers proto :=
  ⟨wf, .inl ⟨rfl, rfl⟩, fun _ mem => .inl mem⟩

/-- After an ask key has been taken. -/
theorem Called.Registers.late (wf : d.WF) (asked : d.lastAskKey = proto.lastAskKey + 1)
    (keys : ∀ key ∈ d.outstanding, key ∈ proto.outstanding ∨ key = proto.lastAskKey + 1)
    (same : v.askKey = some (proto.lastAskKey + 1)) (pops : d.Pops v.proto) :
    v.Registers proto := by
  obtain ⟨wf', asked', fewer⟩ := pops.kept wf
  refine ⟨wf', .inr ⟨same, asked'.trans asked⟩, fun key mem => ?_⟩
  rcases keys key (fewer key mem) with old | rfl
  · exact .inl old
  · exact .inr same

theorem ampCall_registers (wf : proto.WF) {command : CString} {args : Option AmpBox}
    {func arg : Nat} (run : ampCall write proto mem command args func arg own = .ok v) :
    v.Registers proto := by
  unfold ampCall at run
  split at run
  · cases run
  next r put =>
  split at run
  · obtain rfl := Except.ok.inj run
    exact .early wf _ _
  split at run
  · obtain rfl := Except.ok.inj run
    exact .early wf _ _
  next cb mem' made =>
  simp only [ampNextAskKey, toUInt32_toInt32] at run
  rcases stored : ampPutCallback mem' proto.outstandingRequests (proto.lastAskKey + 1).toInt32 cb
    with ⟨ret, table, mem''⟩
  simp only [stored] at run
  obtain ⟨next, hnext⟩ : ∃ next : Dispatcher, next = { proto with
      lastAskKey := proto.lastAskKey + 1, outstandingRequests := table } := ⟨_, rfl⟩
  have asked : next.lastAskKey = proto.lastAskKey + 1 := by rw [hnext]
  have registered : next.WF ∧
      ∀ key ∈ next.outstanding, key ∈ proto.outstanding ∨ key = proto.lastAskKey + 1 := by
    rw [ampPutCallback, toUInt32_toInt32] at stored
    have put := wf.outstanding.put mem' (proto.lastAskKey + 1)
      { cb with askKey := (proto.lastAskKey + 1).toInt32 }
    rw [stored] at put
    refine ⟨hnext ▸ ⟨put.1, wf.responders⟩, fun key mem => ?_⟩
    have mem : key ∈ table.toMap := by rwa [hnext] at mem
    rcases put.2 with ⟨-, map⟩ | ⟨-, -, same⟩
    · rw [map, Finmap.mem_insert] at mem
      exact mem.symm
    · have same : table = proto.outstandingRequests := same
      exact .inl (by rwa [same] at mem)
  rw [← hnext] at run
  have late {v : Called U} (same : v.askKey = some (proto.lastAskKey + 1))
      (pops : next.Pops v.proto) : v.Registers proto :=
    .late registered.1 asked registered.2 same pops
  split at run
  · obtain rfl := Except.ok.inj run
    exact late (callFailed_pops _ _).1 (callFailed_pops _ _).2
  split at run
  · cases run
  split at run
  · obtain rfl := Except.ok.inj run
    exact late (callFailed_pops _ _).1 (callFailed_pops _ _).2
  split at run
  · cases run
  · exact late (callWrite_pops run).1 (callWrite_pops run).2

theorem ampCallNoAnswer_untouched {command : CString} {args : Option AmpBox}
    (run : ampCallNoAnswer write proto mem command args own = .ok v) : v.proto = proto := by
  have wrote {args : AmpBox} {mem : Mem}
      (run : callWrite write (-1) none proto args mem own none = .ok v) : v.proto = proto := by
    unfold callWrite at run
    split at run
    · cases run
    · obtain rfl := Except.ok.inj run
      rfl
    · split at run
      · cases run
      · obtain rfl := Except.ok.inj run
        rfl
  unfold ampCallNoAnswer at run
  split at run
  · cases run
  split at run
  · obtain rfl := Except.ok.inj run
    rfl
  split at run
  · cases run
  · exact wrote run

end Calling

/-! ## The invariant -/

def Action.isCall : Action → Bool
  | .call .. => true
  | _ => false

namespace Client

/-- What an application has to avoid: registering a responder under a name that has one or without
memory for it, and feeding or resetting the proto while `amp_consume_bytes` waits for user code. -/
def Careful (names : List CString) (c : Client U) : Action → Prop
  | .addResponder name _ _ => ∀ command ∈ names[name]?,
      ampGetResponder c.proto.responders command = none ∧ c.mem 1 .tableBinding = true
  | .consume _ | .reset => ∀ frame ∈ c.frames, frame.loop = none
  | _ => True

instance (names : List CString) (c : Client U) (action : Action) :
    Decidable (Careful names c action) := by
  cases action <;> dsimp only [Careful] <;> infer_instance

/-- At most `n` calls were made, and nothing was forgotten. -/
structure Clean (n : Nat) (c : Client U) : Prop where
  tables : c.proto.toDispatcher.WF
  asked : c.proto.lastAskKey.toNat ≤ n
  keys : ∀ key ∈ c.proto.outstanding, key.toNat ≤ c.proto.lastAskKey.toNat
  single : c.frames.Pairwise fun f g => f.loop = none ∨ g.loop = none
  waiting : (∃ frame ∈ c.frames, frame.loop ≠ none) → c.proto.box = none
  nothing : c.gone = .nothing

section Steps

variable {write : WriteHandler U} {names : List CString} {n : Nat} {c c' : Client U}
  {reply : Reply}

/-- What does not concern the proto. -/
theorem Clean.same (clean : c.Clean n) (proto : c'.proto = c.proto) (frames : c'.frames = c.frames)
    (gone : c'.gone = c.gone) : c'.Clean n :=
  ⟨proto ▸ clean.tables, proto ▸ clean.asked, proto ▸ clean.keys, frames ▸ clean.single,
    proto ▸ frames ▸ clean.waiting, gone ▸ clean.nothing⟩

/-- A change of the dispatcher that makes no key outstanding. -/
theorem Clean.dispatcher (clean : c.Clean n) {proto : AmpProto} {mem : Mem}
    {app : Application U Object} (wf : proto.toDispatcher.WF)
    (asked : proto.lastAskKey = c.proto.lastAskKey)
    (keys : ∀ key ∈ proto.outstanding, key ∈ c.proto.outstanding)
    (box : proto.box = c.proto.box) :
    Clean n { c with proto := proto, mem := mem, app := app } :=
  ⟨wf, asked ▸ clean.asked, fun key mem => asked ▸ clean.keys key (keys key mem), clean.single,
    box ▸ clean.waiting, clean.nothing⟩

theorem Clean.newBox (clean : c.Clean n) : c.newBox.2.Clean n := by
  unfold Client.newBox
  split
  · exact clean.same rfl rfl rfl
  · exact clean.same rfl rfl rfl

theorem Clean.boxOp (clean : c.Clean n) {kind : Kind} {i : Nat} {op : BoxOp}
    (run : c.boxOp kind i op = .ok (reply, c')) : c'.Clean n := by
  unfold Client.boxOp at run
  split at run
  · cases run
  split at run
  · cases run
  split at run
  · cases run
  split at run
  · obtain ⟨-, rfl⟩ := Prod.mk.inj (Except.ok.inj run)
    exact clean.same rfl rfl rfl
  · cases run
  · cases run

theorem Clean.release (clean : c.Clean n) {kind : Kind} {i : Nat}
    (run : c.release kind i = .ok (reply, c')) : c'.Clean n := by
  unfold Client.release at run
  split at run
  · cases run
  split at run
  · cases run
  · obtain ⟨-, rfl⟩ := Prod.mk.inj (Except.ok.inj run)
    exact clean.same rfl rfl rfl

/-! ### The dispatcher -/

theorem responderLost_nil {mem : Mem} {respMap : ResponderMap} {r : Responder}
    (free : ampGetResponder respMap r.command = none) (served : mem 0 .tableBinding = true) :
    responderLost mem respMap r = [] := by
  have put : (ampPutResponder mem respMap r).1 = 0 := by
    unfold ampPutResponder tablePut
    unfold ampGetResponder tableGet at free
    rw [Option.map_eq_none_iff.1 free, malloc, served]
  rw [responderLost, if_pos put, free]
  rfl

theorem Clean.addResponder (clean : c.Clean n) {name func arg : Nat}
    (careful : c.Careful names (.addResponder name func arg))
    (run : Client.addResponder names c name func arg = .ok (reply, c')) : c'.Clean n := by
  unfold Client.addResponder at run
  split at run
  · cases run
  next command named =>
  obtain ⟨free, served⟩ := careful command named
  split at run
  · cases run
  next proto mem added =>
  obtain ⟨-, rfl⟩ := Prod.mk.inj (Except.ok.inj run)
  have lost : responderLost (fun n => c.mem (n + 1)) c.proto.responders ⟨command, func, arg⟩ = [] :=
    responderLost_nil free served
  rw [lost]
  unfold ampAddResponder at added
  split at added
  · cases added
  · obtain ⟨rfl, -⟩ := Prod.mk.inj (Except.ok.inj added)
    exact clean.dispatcher ⟨clean.tables.outstanding, (clean.tables.responders.put _ _ _).1⟩ rfl
      (fun _ mem => mem) rfl

theorem Clean.removeResponder (clean : c.Clean n) (name : CString) :
    (c.withDispatcher (ampRemoveResponder c.proto.toDispatcher name)).Clean n :=
  clean.dispatcher ⟨clean.tables.outstanding, (clean.tables.responders.remove name).2.1⟩ rfl
    (fun _ mem => mem) rfl

/-- Resetting replaces the box of a proto that does not wait. -/
theorem Clean.reset (clean : c.Clean n) (quiet : ∀ frame ∈ c.frames, frame.loop = none) :
    c.reset.2.Clean n :=
  ⟨clean.tables, clean.asked, clean.keys, clean.single,
    fun ⟨frame, mem, waits⟩ => absurd (quiet frame mem) waits, clean.nothing⟩

/-! ### Calls -/

/-- A fresh key displaces nothing. -/
theorem displaced_nil (clean : c.Clean n) (few : n + 1 < 2 ^ 32) :
    displaced c.proto.toDispatcher (some (c.proto.lastAskKey + 1)) = [] := by
  have asked := clean.asked
  have next : (c.proto.lastAskKey + 1).toNat = c.proto.lastAskKey.toNat + 1 := by
    rw [UInt32.toNat_add]
    exact Nat.mod_eq_of_lt (by simpa using by omega)
  have absent : c.proto.lastAskKey + 1 ∉ c.proto.outstanding := by
    intro mem
    have := clean.keys _ mem
    omega
  have none : tableGet c.proto.outstandingRequests (c.proto.lastAskKey + 1) = none := by
    rw [clean.tables.get]
    exact Finmap.lookup_eq_none.2 absent
  simp only [displaced, Option.toList_some, List.flatMap_cons, none, Option.toList_none,
    List.flatMap_nil, List.append_nil]

theorem Clean.call (clean : c.Clean n) (few : n + 1 < 2 ^ 32) {command : CString}
    {args : Option Nat} {func arg : Nat}
    (run : c.call write command args func arg = .ok (reply, c')) :
    c'.Clean (n + 1) := by
  unfold Client.call Client.passing at run
  split at run
  · cases run
  split at run
  · cases run
  next v called =>
  obtain ⟨-, rfl⟩ := Prod.mk.inj (Except.ok.inj run)
  have registers := ampCall_registers clean.tables called
  have asked := clean.asked
  have next : (c.proto.lastAskKey + 1).toNat = c.proto.lastAskKey.toNat + 1 := by
    rw [UInt32.toNat_add]
    exact Nat.mod_eq_of_lt (by simpa using by omega)
  have nothing : c.gone.addCallbacks (displaced c.proto.toDispatcher v.askKey) = .nothing := by
    rcases registers.asked with ⟨same, -⟩ | ⟨same, -⟩
    · rw [same, clean.nothing]
      rfl
    · rw [same, displaced_nil clean few, clean.nothing]
      rfl
  refine ⟨registers.wf, ?_, ?_, clean.single, clean.waiting, nothing⟩
  · show v.proto.lastAskKey.toNat ≤ n + 1
    rcases registers.asked with ⟨-, same⟩ | ⟨-, same⟩ <;> rw [same] <;> omega
  · show ∀ key ∈ v.proto.outstanding, key.toNat ≤ v.proto.lastAskKey.toNat
    intro key mem
    rcases registers.asked with ⟨early, same⟩ | ⟨late, same⟩ <;> rw [same]
    · rcases registers.keys key mem with old | new
      · exact clean.keys key old
      · rw [early] at new
        cases new
    · rcases registers.keys key mem with old | new
      · have := clean.keys key old
        omega
      · rw [late] at new
        exact (congrArg UInt32.toNat (Option.some.inj new)).ge

theorem Clean.callNoAnswer (clean : c.Clean n) {command : CString} {args : Option Nat}
    (run : c.callNoAnswer write command args = .ok (reply, c')) : c'.Clean n := by
  unfold Client.callNoAnswer Client.passing at run
  split at run
  · cases run
  split at run
  · cases run
  next v called =>
  obtain ⟨-, rfl⟩ := Prod.mk.inj (Except.ok.inj run)
  have same : c.withDispatcher v.proto = c := by
    rw [Client.withDispatcher, ampCallNoAnswer_untouched called]
  rw [same]
  exact clean.same rfl rfl rfl

theorem Clean.respond (clean : c.Clean n) {request : Nat} {args : Option Nat}
    (run : c.respond write request args = .ok (reply, c')) : c'.Clean n := by
  unfold Client.respond at run
  split at run
  · split at run
    · cases run
    split at run
    · cases run
    · obtain ⟨-, rfl⟩ := Prod.mk.inj (Except.ok.inj run)
      exact clean.same rfl rfl rfl
  · cases run

/-! ### User code -/

/-- A call of the library waits: without a box if it is `amp_consume_bytes`. -/
theorem Clean.enter (clean : c.Clean n) {loop : Option (List UInt8 × Int)}
    (idle : loop = none ∨ (∀ frame ∈ c.frames, frame.loop = none) ∧ c.proto.box = none)
    (invocation : Invocation) : (c.enter loop invocation).2.Clean n := by
  have entered (callback : Option Callback) (app : Application U Object) :
      Clean n { c with app := app, frames := ⟨callback, loop⟩ :: c.frames } := by
    refine ⟨clean.tables, clean.asked, clean.keys, ?_, ?_, clean.nothing⟩
    · refine List.pairwise_cons.2 ⟨fun frame mem => ?_, clean.single⟩
      rcases idle with none | ⟨quiet, -⟩
      · exact .inl none
      · exact .inr (quiet frame mem)
    · rintro ⟨frame, mem, waits⟩
      rcases idle with none | ⟨-, box⟩
      · rcases List.mem_cons.1 mem with rfl | old
        · exact absurd none waits
        · exact clean.waiting ⟨frame, old, waits⟩
      · exact box
  cases invocation with
  | responder r request => exact entered _ _
  | callback cb result => exact entered _ _

theorem Clean.cancel (clean : c.Clean n) (askKey : Int32) : (c.cancel askKey).2.Clean n := by
  unfold Client.cancel
  obtain ⟨p, cancelled⟩ : ∃ p, p = ampCancel c.proto.toDispatcher c.proto.box c.mem askKey c.app :=
    ⟨_, rfl⟩
  have pops : c.proto.toDispatcher.Pops p.proto := cancelled ▸ completeCall_pops _ _ _
  obtain ⟨wf, asked, keys⟩ := pops.kept clean.tables
  rw [← cancelled]
  have after : Clean n { c.withDispatcher p.proto with mem := p.mem } :=
    clean.dispatcher wf asked keys rfl
  dsimp only
  split
  · exact after
  · exact after.enter (.inl rfl) _

/-- A proto that does not wait any more, and may have a box. -/
theorem Clean.consumed (clean : c.Clean n) (quiet : ∀ frame ∈ c.frames, frame.loop = none)
    {now : Consumer (Dispatcher × Application U Object)}
    (pops : c.proto.toDispatcher.Pops now.own.1) : (c.withConsumer now).Clean n := by
  obtain ⟨wf, asked, keys⟩ := pops.kept clean.tables
  exact ⟨wf, asked ▸ clean.asked, fun key mem => asked ▸ clean.keys key (keys key mem),
    clean.single, fun ⟨frame, mem, waits⟩ => absurd (quiet frame mem) waits, clean.nothing⟩

theorem Clean.pumped (clean : c.Clean n) (quiet : ∀ frame ∈ c.frames, frame.loop = none)
    {p : Pumped (Application U Object)} (leaves : p.Leaves c.proto.toDispatcher) :
    (c.pumped p).2.Clean n := by
  cases p with
  | done ret now => exact clean.consumed quiet leaves
  | stopped invocation s => exact (clean.consumed quiet leaves.1).enter (.inr ⟨quiet, leaves.2⟩) _

theorem Clean.consume (clean : c.Clean n) (quiet : ∀ frame ∈ c.frames, frame.loop = none)
    {buf : List UInt8} (run : c.consume write buf = .ok (reply, c')) : c'.Clean n := by
  unfold Client.consume at run
  split at run
  · cases run
  next p consumed =>
  obtain rfl : c' = (c.pumped p).2 := (congrArg Prod.snd (Except.ok.inj run)).symm
  refine clean.pumped quiet ?_
  unfold consumeUpTo at consumed
  split at consumed
  · obtain rfl := Except.ok.inj consumed
    exact Relation.ReflTransGen.refl
  · exact pump_leaves (s := ⟨c.consumer, buf, 0⟩) Relation.ReflTransGen.refl consumed

theorem Clean.returns (clean : c.Clean n) (run : c.returns write = .ok (reply, c')) :
    c'.Clean n := by
  unfold Client.returns at run
  have single := clean.single
  have waiting := clean.waiting
  cases frames : c.frames with
  | nil => simp [frames] at run
  | cons frame rest =>
    rw [frames] at run single waiting
    obtain ⟨alone, single⟩ := List.pairwise_cons.1 single
    dsimp only at run
    split at run
    · obtain ⟨-, rfl⟩ := Prod.mk.inj (Except.ok.inj run)
      exact ⟨clean.tables, clean.asked, clean.keys, single,
        fun ⟨f, mem, waits⟩ => waiting ⟨f, List.mem_cons_of_mem _ mem, waits⟩, clean.nothing⟩
    · next locals bytes bytesConsumed loop =>
      split at run
      · cases run
      next p resumed =>
      obtain rfl := (congrArg Prod.snd (Except.ok.inj run)).symm
      have waits : frame.loop ≠ none := by simp [loop]
      have quiet : ∀ f ∈ rest, f.loop = none := fun f mem => (alone f mem).resolve_left waits
      have box : c.proto.box = none := waiting ⟨frame, List.mem_cons_self, waits⟩
      have nothing : c.gone.addBoxes c.proto.box.toList = .nothing := by
        rw [box, clean.nothing]
        rfl
      have popped : Clean n { c with
          frames := rest, gone := c.gone.addBoxes c.proto.box.toList } :=
        ⟨clean.tables, clean.asked, clean.keys, single,
          fun ⟨f, mem, waits⟩ => absurd (quiet f mem) waits, nothing⟩
      exact popped.pumped quiet (pump_leaves (d := c.proto.toDispatcher)
        (s := nextBox ⟨c.consumer, bytes, bytesConsumed⟩) Relation.ReflTransGen.refl resumed)

/-! ### Runs -/

theorem Clean.step (clean : c.Clean n) {action : Action} (careful : c.Careful names action)
    (few : n + (if action.isCall then 1 else 0) < 2 ^ 32)
    (run : c.step write names action = .ok (reply, c')) :
    c'.Clean (n + if action.isCall then 1 else 0) := by
  cases action with
  | newBox =>
    obtain rfl := (congrArg Prod.snd (Except.ok.inj run)).symm
    exact clean.newBox
  | boxOp kind object op => exact clean.boxOp run
  | release kind object => exact clean.release run
  | setWriteHandler func arg =>
    obtain ⟨-, rfl⟩ := Prod.mk.inj (Except.ok.inj run)
    exact clean.dispatcher ⟨clean.tables.outstanding, clean.tables.responders⟩ rfl
      (fun _ mem => mem) rfl
  | addResponder name func arg => exact clean.addResponder careful run
  | removeResponder name =>
    obtain ⟨-, rfl⟩ := Prod.mk.inj (Except.ok.inj run)
    exact clean.removeResponder name
  | call command args func arg => exact clean.call few run
  | callNoAnswer command args => exact clean.callNoAnswer run
  | cancel askKey =>
    obtain rfl := (congrArg Prod.snd (Except.ok.inj run)).symm
    exact clean.cancel askKey
  | respond request args => exact clean.respond run
  | consume buf => exact clean.consume careful run
  | returns => exact clean.returns run
  | reset =>
    obtain rfl := (congrArg Prod.snd (Except.ok.inj run)).symm
    exact clean.reset careful

theorem Clean.run (clean : c.Clean n) {actions : List Action}
    (careful : c.Throughout (Careful names) write names actions)
    (few : n + actions.countP Action.isCall < 2 ^ 32) {replies : List Reply}
    (run : c.run write names actions = .ok (replies, c')) :
    c'.Clean (n + actions.countP Action.isCall) := by
  induction actions generalizing n c replies with
  | nil =>
    obtain ⟨-, rfl⟩ := Prod.mk.inj (Except.ok.inj run)
    exact clean
  | cons action actions ih =>
    rw [List.countP_cons, Nat.add_comm (List.countP _ _), ← Nat.add_assoc] at few ⊢
    rw [Client.run] at run
    rcases stepped : c.step write names action with e | ⟨reply, mid⟩
    · simp [stepped] at run
    simp only [stepped] at run
    rcases ran : mid.run write names actions with e | ⟨replies', last⟩
    · simp [ran] at run
    simp only [ran, Except.ok.injEq, Prod.mk.injEq] at run
    obtain ⟨-, rfl⟩ := run
    exact ih (clean.step careful.1 (by omega) stepped) (careful.2 _ _ stepped) few ran

end Steps

/-- A proto nothing was done with. -/
theorem clean_start {mem mem' : Mem} {keyData : Buffer (256 + 1)} {valData : Buffer (256 * 256)}
    {proto : AmpProto} (made : ampNewProto mem keyData valData = .ok (some proto, mem'))
    (state : U) : Clean 0 ⟨proto, mem', ⟨state, []⟩, [], .nothing⟩ := by
  obtain ⟨-, wf, none, -, asked, -⟩ := ampNewProto_ok made
  refine ⟨wf, by rw [asked]; rfl, ?_, .nil, ?_, rfl⟩
  · show ∀ key ∈ proto.outstanding, key.toNat ≤ proto.lastAskKey.toNat
    intro key mem
    rw [none] at mem
    exact absurd mem (Finmap.notMem_empty)
  · rintro ⟨frame, mem, -⟩
    cases mem

end Client

/-! ## The heap afterwards -/

open Heap Separation Assertion OnHeap

/-- A session of fewer than 2³² calls, in which responders are registered under new names and with
memory for them, and the proto is neither fed nor reset while `amp_consume_bytes` waits for user
code, leaves the heap as it was. -/
theorem session_leaves_nothing (write : WriteHandler U) (texts : List (Ptr × CString))
    (a : BlockAllocator) (keyData : Buffer (256 + 1)) (valData : Buffer (256 * 256)) (state : U)
    (actions : List Action) (h others : Blocks Block) {x : Option (List Reply × LibAmp.Client U)}
    (run : LibAmp.runSession write (texts.map Prod.snd) a.serves keyData valData state actions =
      .ok x)
    (finished : ∀ r ∈ x, Finished r.2) (few : actions.countP Action.isCall < 2 ^ 32)
    (careful : ∀ proto mem, LibAmp.ampNewProto a.serves keyData valData = .ok (some proto, mem) →
      LibAmp.Client.Throughout (LibAmp.Client.Careful (texts.map Prod.snd)) write
        (texts.map Prod.snd) ⟨proto, mem, ⟨state, []⟩, [], .nothing⟩ actions)
    (named : (textsAt texts * only others) h) :
    OnHeap.runSession write texts a keyData valData state actions h = .ok (x.map Prod.fst, h) := by
  have nothing : (x.map fun r => r.2.gone).getD .nothing = .nothing := by
    unfold LibAmp.runSession at run
    split at run
    · cases run
    · obtain rfl := Except.ok.inj run
      rfl
    next proto mem made =>
    split at run
    · cases run
    next r ran =>
    obtain rfl := Except.ok.inj run
    obtain ⟨replies, c⟩ := r
    exact ((LibAmp.Client.clean_start made state).run (careful _ _ made) (by rwa [Nat.zero_add])
      ran).nothing
  obtain ⟨replies, h', ran, own⟩ := runSession_spec run (only others) h named
  rw [mul_assoc] at own
  obtain ⟨rfl, left⟩ := fact_mul.1 own
  have gone : leftOver x ≤ 1 := by
    rw [← forgotten_nothing, ← nothing]
    exact leftOver_le_of_finished finished
  have left := mul_mono (mul_mono (le_refl (textsAt texts)) gone) (le_refl (only others)) h' left
  rw [mul_one] at left
  rw [ran, exact_texts texts others h' h left named]

/-- A request is answered and a call is made, with a responder under the only name. -/
theorem session_leaves_nothing_echo :
    OnHeap.runSession (fun _ _ _ state => (0, state)) [(1, ⟨[99], by decide⟩)] Allocator.bump
        (.zeros _) (.zeros _) ()
        [.setWriteHandler 7 8, .addResponder 0 5 6,
          .consume [0, 4, 95, 97, 115, 107, 0, 1, 49,
            0, 8, 95, 99, 111, 109, 109, 97, 110, 100, 0, 1, 99, 0, 0],
          .newBox, .respond 1 (some 0), .release .request 0, .release .box 0, .release .packet 0,
          .returns, .newBox, .call ⟨[99], by decide⟩ (some 0) 3 4, .release .box 0,
          .release .packet 0, .consume [0, 7, 95, 97, 110, 115, 119, 101, 114, 0, 1, 49, 0, 0],
          .release .result 0, .returns]
        (Finmap.singleton 1 (.text ⟨[99], by decide⟩)) =
      .ok (some [.nothing, .nothing, .responder 5 6, .made true, .code 0, .nothing, .nothing,
        .nothing, .code 0, .made true, .called 0 (some 1), .nothing, .nothing, .callback 3 4,
        .nothing, .code 0],
        Finmap.singleton 1 (.text ⟨[99], by decide⟩)) := by
  obtain ⟨actions, given⟩ : ∃ actions : List Action, actions = [.setWriteHandler 7 8,
      .addResponder 0 5 6,
      .consume [0, 4, 95, 97, 115, 107, 0, 1, 49,
        0, 8, 95, 99, 111, 109, 109, 97, 110, 100, 0, 1, 99, 0, 0],
      .newBox, .respond 1 (some 0), .release .request 0, .release .box 0, .release .packet 0,
      .returns, .newBox, .call ⟨[99], by decide⟩ (some 0) 3 4, .release .box 0, .release .packet 0,
      .consume [0, 7, 95, 97, 110, 115, 119, 101, 114, 0, 1, 49, 0, 0],
      .release .result 0, .returns] := ⟨_, rfl⟩
  have evaluated : (LibAmp.runSession (fun _ _ _ state => (0, state)) [⟨[99], by decide⟩] plenty
      (.zeros _) (.zeros _) () actions).toOption.join.map (fun r => (r.1, r.2.app.objects.isEmpty,
        r.2.frames.isEmpty)) =
      some ([.nothing, .nothing, .responder 5 6, .made true, .code 0, .nothing, .nothing,
        .nothing, .code 0, .made true, .called 0 (some 1), .nothing, .nothing, .callback 3 4,
        .nothing, .code 0], true, true) := by
    rw [given]
    decide +kernel
  have careful : ∀ r ∈ (LibAmp.ampNewProto plenty (.zeros _) (.zeros _)).toOption, ∀ proto ∈ r.1,
      LibAmp.Client.Throughout (LibAmp.Client.Careful [⟨[99], by decide⟩])
        (fun _ _ _ state => (0, state)) [⟨[99], by decide⟩] ⟨proto, r.2, ⟨(), []⟩, [], .nothing⟩
        actions := by
    rw [given]
    decide +kernel
  have named : (textsAt [(1, ⟨[99], by decide⟩)] * only ∅ : Assertion Block)
      (Finmap.singleton 1 (.text ⟨[99], by decide⟩)) := by
    rw [textsAt, List.map_singleton, List.prod_singleton, cell_mul]
    exact ⟨by decide, Finmap.lookup_singleton_eq, rfl⟩
  rw [← given]
  rcases run : LibAmp.runSession (fun _ _ _ state => (0, state)) [⟨[99], by decide⟩] plenty
    (.zeros _) (.zeros _) () actions with e | _ | ⟨replies, c⟩ <;> rw [run] at evaluated
  · cases evaluated
  · cases evaluated
  simp only [Except.toOption, Option.join_some, Option.map_some, Option.some.injEq, Prod.mk.injEq,
    List.isEmpty_iff] at evaluated
  obtain ⟨rfl, objects, frames⟩ := evaluated
  exact session_leaves_nothing (fun _ _ _ state => (0, state)) [(1, ⟨[99], by decide⟩)]
    Allocator.bump (.zeros _) (.zeros _) () actions _ ∅ run
    (by rintro _ ⟨⟩; exact ⟨objects, frames⟩) (by rw [given]; decide)
    (fun proto mem made => careful (some proto, mem) (by
      rw [show plenty = Allocator.bump.serves from rfl, made]; rfl) proto rfl) named

end LibAmp
