import LibAmp.Chunking

/-!
# Failing allocations while parsing

A record that cannot be stored for want of memory ends a call with a latched `ENOMEM`. The box a
proto needs for its next packet is another matter: neither `amp_consume_bytes` nor
`amp_reset_proto` looks at what `amp_new_box` returned, so a proto without an error can be left
without a box, and the next record is stored through a null pointer. `alloc_failure_reported`
says that this is the only way in which a failed allocation goes unreported.
-/

namespace LibAmp

open WhileLoop (Turn Outcome TurnOutcome Visits)

variable {σ : Type}

/-! ## Failures that are reported -/

/-- There is no memory for a record that the present turn completes: neither its key nor its
length is what is wrong with it. -/
def ParseLoop.StoreRefused (s : ParseLoop) : Prop :=
  s.rest ≠ [] ∧ s.proto.state = .valDataRead ∧
    ∃ box key valData,
      s.box = some box ∧ s.proto.valLen - s.proto.valDataFetched ≤ s.rest.length ∧
      memcpy s.proto.valData s.proto.valDataFetched s.rest
        (s.proto.valLen - s.proto.valDataFetched) = .ok valData ∧
      s.proto.keyData.cstring = .ok key ∧ 0 < strlen key ∧ strlen key ≤ maxKeyLength ∧
      0 ≤ s.proto.valLen ∧ s.proto.valLen ≤ maxValueLength ∧
      (s.mem 0 .keyval = false ∨
        s.mem 0 .keyval = true ∧ box.find key = none ∧ s.mem 1 .binding = false)

/-- The loop of `amp_parse_box` as a turn of `amp_consume_bytes` enters it. -/
def ConsumeLoop.parseEntry (s : ConsumeLoop σ) : ParseLoop :=
  ⟨s.now.proto, s.now.proto.box, s.now.mem, s.rest, 0⟩

/-- A turn of `amp_consume_bytes` dispatches a box and finds no memory for the next one. -/
def ConsumeLoop.BoxRefused (dispatch : DispatchBox σ) (s : ConsumeLoop σ) : Prop :=
  ∃ r done,
    ampParseBox s.now.mem s.now.proto s.now.proto.box s.bytesConsumed s.rest = .ok r ∧
      r.status ≠ 0 ∧ dispatch r.mem r.box s.now.own = .ok done ∧ done.ret = 0 ∧
      done.mem 0 .box = false

/-- In a state without an error the proto has a box, every call it then makes to
`amp_parse_box` gets one, and whatever allocation fails in that call is reported and latched. -/
structure Reported (dispatch : DispatchBox σ) (now : Consumer σ) : Prop where
  live : now.proto.box.isSome
  parseLive : ∀ buf s, Visits (consumeTurn dispatch) ⟨now, buf, 0⟩ s → s.rest ≠ [] →
    s.now.proto.box.isSome
  store : ∀ buf ret after, ampConsumeBytes dispatch now buf = .ok (ret, after) →
    ∀ s, Visits (consumeTurn dispatch) ⟨now, buf, 0⟩ s → s.rest ≠ [] →
      ∀ t, Visits (parseTurn s.bytesConsumed) s.parseEntry t → t.StoreRefused →
        ret = enomem ∧ after.proto.error = enomem
  newBox : ∀ buf ret after, ampConsumeBytes dispatch now buf = .ok (ret, after) →
    ∀ s, Visits (consumeTurn dispatch) ⟨now, buf, 0⟩ s → s.rest ≠ [] →
      s.BoxRefused dispatch → ret = enomem ∧ after.proto.error = enomem

/-- What happens to a proto between two states a caller can see. -/
inductive ParserEvent where
  | consume (buf : List UInt8)
  | reset

def ParserEvent.run (dispatch : DispatchBox σ) (now : Consumer σ) :
    ParserEvent → Except Fault (Consumer σ)
  | consume buf => (ampConsumeBytes dispatch now buf).map (·.2)
  | reset => .ok ⟨(now.proto.reset now.mem).1, (now.proto.reset now.mem).2, now.own⟩

def runEvents (dispatch : DispatchBox σ) (now : Consumer σ) :
    List ParserEvent → Except Fault (Consumer σ)
  | [] => .ok now
  | event :: events =>
    match event.run dispatch now with
    | .error e => .error e
    | .ok now => runEvents dispatch now events

/-! ## Memory for boxes -/

/-- No `amp_new_box` for the box of a proto will be refused. -/
def Mem.ServesBoxes (mem : Mem) : Prop := ∀ n, mem n .box = true

/-- `mem'` is what is left of `mem` after some allocations. -/
def Mem.Later (mem mem' : Mem) : Prop := ∃ k, mem' = fun n => mem (n + k)

theorem Mem.Later.refl (mem : Mem) : mem.Later mem := ⟨0, rfl⟩

theorem Mem.ServesBoxes.later {mem mem' : Mem} (h : mem.ServesBoxes) (later : mem.Later mem') :
    mem'.ServesBoxes := by
  obtain ⟨k, rfl⟩ := later
  exact fun n => h (n + k)

theorem ampNewBox_served {mem : Mem} (h : mem.ServesBoxes) :
    (ampNewBox .box mem).1 = some (AmpBox.new hashString) ∧
      (ampNewBox .box mem).2.ServesBoxes := by
  simp only [ampNewBox, malloc, h 0]
  exact ⟨trivial, fun n => h (n + 1)⟩

/-- A handler hands back the allocator it was given, less what it used. -/
def Frugal (dispatch : DispatchBox σ) : Prop :=
  ∀ mem box own r, dispatch mem box own = .ok r → mem.Later r.mem

/-! ## What storing does to the box and the allocator -/

/-- A put that returns has not lost the box. -/
theorem ampPutBuf_keeps {mem : Mem} {box : AmpBox} {key : CString} {buf : List UInt8}
    {bufSize : Int} {r : PutResult} (h : ampPutBuf mem (some box) key buf bufSize = .ok r) :
    r.box.isSome ∧ mem.Later r.mem := by
  unfold ampPutBuf at h
  simp only [malloc] at h
  split at h
  · obtain rfl : _ = r := by injection h
    exact ⟨rfl, .refl mem⟩
  split at h
  · obtain rfl : _ = r := by injection h
    exact ⟨rfl, .refl mem⟩
  split at h
  · obtain rfl : _ = r := by injection h
    next hm => exact ⟨rfl, ⟨1, (congrArg Prod.snd hm).symm⟩⟩
  next hm =>
  obtain rfl := congrArg Prod.snd hm
  split at h
  · cases h
  split at h
  · obtain rfl : _ = r := by injection h
    exact ⟨rfl, ⟨1, rfl⟩⟩
  split at h
  · obtain rfl : _ = r := by injection h
    next hm => exact ⟨rfl, ⟨2, (congrArg Prod.snd hm).symm⟩⟩
  · obtain rfl : _ = r := by injection h
    next hm => exact ⟨rfl, ⟨2, (congrArg Prod.snd hm).symm⟩⟩

/-- A put refused memory for the pair or for a new binding returns `ENOMEM`. -/
theorem ampPutBuf_refused {mem : Mem} (box : AmpBox) {key : CString} {buf : List UInt8}
    {bufSize : Int} (room : bufSize ≤ buf.length)
    (hkey : 0 < strlen key ∧ strlen key ≤ maxKeyLength)
    (hval : 0 ≤ bufSize ∧ bufSize ≤ maxValueLength)
    (refused : mem 0 .keyval = false ∨
      mem 0 .keyval = true ∧ box.find key = none ∧ mem 1 .binding = false) :
    ∃ r, ampPutBuf mem (some box) key buf bufSize = .ok r ∧ r.ret = enomem := by
  have okKey : ¬ (strlen key > maxKeyLength ∨ strlen key = 0) := by omega
  have okVal : ¬ (bufSize > maxValueLength ∨ bufSize < 0) := by omega
  have okBuf : ¬ bufSize > buf.length := by omega
  unfold ampPutBuf
  simp only [okKey, okVal, okBuf, ↓reduceDIte, malloc]
  rcases refused with h | ⟨h, absent, h'⟩
  · rw [h]
    exact ⟨_, rfl, rfl⟩
  · rw [h]
    simp only [absent, Nat.zero_add, h']
    exact ⟨_, rfl, rfl⟩

/-! ## The two loops keep the box -/

/-- `amp_parse_box` keeps the box it was given. -/
theorem ampParseBox_keeps {mem : Mem} {proto : Parser} {box : Option AmpBox} {n : Int}
    {buf : List UInt8} {r : ParseResult} (live : box.isSome) (served : mem.ServesBoxes)
    (h : ampParseBox mem proto box n buf = .ok r) : r.box.isSome ∧ r.mem.ServesBoxes := by
  have store {mem : Mem} {proto : Parser} {box : Option AmpBox} {r : PutResult}
      (hs : box.isSome ∧ mem.ServesBoxes) (stored : storeKeyValue mem proto box = .ok r) :
      r.box.isSome ∧ r.mem.ServesBoxes := by
    obtain ⟨box, rfl⟩ := Option.isSome_iff_exists.1 hs.1
    unfold storeKeyValue at stored
    split at stored
    · cases stored
    · obtain ⟨kept, later⟩ := ampPutBuf_keeps stored
      exact ⟨kept, hs.2.later later⟩
  exact ampParseBox_inv (fun box mem => box.isSome ∧ mem.ServesBoxes) store ⟨live, served⟩ h

/-- The proto has a box, unless an error is latched, and boxes will be served. -/
def Consumer.Live (now : Consumer σ) : Prop :=
  (now.proto.error = 0 → now.proto.box.isSome) ∧ now.mem.ServesBoxes

variable {dispatch : DispatchBox σ}

/-- One turn of `amp_consume_bytes` goes round with a box. -/
theorem consumeTurn_keeps (frugal : Frugal dispatch) {s : ConsumeLoop σ}
    (live : s.now.proto.box.isSome) (served : s.now.mem.ServesBoxes) :
    Outcome (fun _ => True)
      (TurnOutcome (fun t => t.now.proto.box.isSome ∧ t.now.mem.ServesBoxes)
        (fun r => r.2.Live)) (consumeTurn dispatch s) := by
  unfold consumeTurn
  split
  · exact ⟨fun _ => live, served⟩
  split
  · trivial
  next r hparse =>
  obtain ⟨liveBox, servedParse⟩ := ampParseBox_keeps live served hparse
  simp only
  split
  · unfold dispatchTurn
    split
    · trivial
    next done hdispatch =>
    have servedDone := servedParse.later (frugal _ _ _ _ hdispatch)
    simp only
    split
    · next hret => exact ⟨fun h => absurd h hret, servedDone⟩
    · obtain ⟨hbox, hmem⟩ := ampNewBox_served servedDone
      exact ⟨by simp only [hbox, Option.isSome_some], hmem⟩
  · split
    · exact ⟨fun _ => liveBox, servedParse⟩
    · exact ⟨liveBox, servedParse⟩

/-- Every state a call comes to at the top of its loop has a box. -/
theorem Consumer.Live.visits (frugal : Frugal dispatch) {now : Consumer σ} (live : now.Live)
    (noError : now.proto.error = 0) {buf : List UInt8} {s : ConsumeLoop σ}
    (visits : Visits (consumeTurn dispatch) ⟨now, buf, 0⟩ s) :
    s.now.proto.box.isSome ∧ s.now.mem.ServesBoxes :=
  visits.outcome_inv (fun _ hs => consumeTurn_keeps frugal hs.1 hs.2) ⟨live.1 noError, live.2⟩

theorem Consumer.Live.consume (frugal : Frugal dispatch) {now after : Consumer σ} (live : now.Live)
    {buf : List UInt8} {ret : Int} (h : ampConsumeBytes dispatch now buf = .ok (ret, after)) :
    after.Live :=
  ampConsumeBytes_left (fun s => s.now.proto.box.isSome ∧ s.now.mem.ServesBoxes)
    (fun _ hs => consumeTurn_keeps frugal hs.1 hs.2) live
    (fun noError => ⟨live.1 noError, live.2⟩) h

theorem Consumer.Live.event (frugal : Frugal dispatch) {now after : Consumer σ} (live : now.Live)
    {event : ParserEvent} (h : event.run dispatch now = .ok after) : after.Live := by
  cases event with
  | consume buf =>
    simp only [ParserEvent.run] at h
    rcases hc : ampConsumeBytes dispatch now buf with e | ⟨ret, now'⟩ <;> rw [hc] at h
    · cases h
    · obtain rfl : now' = after := by injection h
      exact live.consume frugal hc
  | reset =>
    obtain rfl : _ = after := by injection h
    obtain ⟨hbox, hmem⟩ := ampNewBox_served live.2
    exact ⟨fun _ => by simp only [Parser.reset, hbox, Option.isSome_some], hmem⟩

theorem Consumer.Live.runEvents (frugal : Frugal dispatch) {now after : Consumer σ}
    (live : now.Live) {events : List ParserEvent}
    (h : LibAmp.runEvents dispatch now events = .ok after) : after.Live := by
  induction events generalizing now with
  | nil =>
    obtain rfl : now = after := by injection h
    exact live
  | cons event events ih =>
    unfold LibAmp.runEvents at h
    split at h
    · cases h
    next now' hrun => exact ih (live.event frugal hrun) h

/-! ## Records that cannot be stored -/

/-- The turn that cannot store its record leaves `amp_parse_box` with `ENOMEM` latched. -/
theorem ParseLoop.StoreRefused.leaves {s : ParseLoop} (refused : s.StoreRefused) (n : Int) :
    ∃ r, parseTurn n s = .ok (.leave r) ∧ r.status = 0 ∧ r.proto.error = enomem := by
  obtain ⟨hrest, hstate, box, key, valData, hbox, whole, hcopy, hkey, pos, le, valPos, valLe,
    hmem⟩ := refused
  obtain ⟨c, tail, hcons⟩ := List.exists_cons_of_ne_nil hrest
  have notPart : ¬ (s.rest.length : Int) < s.proto.valLen - s.proto.valDataFetched := by omega
  have room : s.proto.valLen ≤ valData.bytes.length := by
    rw [valData.length_eq]
    simp only [maxValueLength] at valLe
    omega
  obtain ⟨r, hput, hret⟩ := ampPutBuf_refused box room ⟨pos, le⟩ ⟨valPos, valLe⟩ hmem
  unfold parseTurn
  simp only [hcons, hstate, readValData]
  rw [← hcons]
  simp only [notPart, ↓reduceIte, hcopy, storeKeyValue, ParseLoop.advance, hkey, ampPutBytes, hbox,
    hput, hret]
  exact ⟨_, rfl, rfl, rfl⟩

/-- A refused record makes the whole call return `ENOMEM`. -/
theorem ampConsumeBytes_storeRefused {now after : Consumer σ} (noError : now.proto.error = 0)
    {buf : List UInt8} {ret : Int} (h : ampConsumeBytes dispatch now buf = .ok (ret, after))
    {s : ConsumeLoop σ} (visits : Visits (consumeTurn dispatch) ⟨now, buf, 0⟩ s)
    (hrest : s.rest ≠ []) {t : ParseLoop}
    (inside : Visits (parseTurn s.bytesConsumed) s.parseEntry t) (refused : t.StoreRefused) :
    ret = enomem ∧ after.proto.error = enomem := by
  simp only [ampConsumeBytes, noError, ne_eq, not_true_eq_false, ↓reduceIte] at h
  obtain ⟨fuel, hs⟩ := visits.run_ok h
  obtain ⟨r, leaves, hstatus, herror⟩ := refused.leaves s.bytesConsumed
  cases fuel with
  | zero => simp [WhileLoop.run] at hs
  | succ fuel =>
    obtain ⟨c, tail, hcons⟩ := List.exists_cons_of_ne_nil hrest
    unfold WhileLoop.run consumeTurn at hs
    rw [hcons] at hs
    simp only at hs
    rw [← hcons] at hs
    rcases hparse : ampParseBox s.now.mem s.now.proto s.now.proto.box s.bytesConsumed s.rest with
      e | r' <;> simp only [hparse] at hs
    · cases hs
    obtain rfl : r' = r := inside.run_eq hparse leaves
    simp only [hstatus, herror, enomem_ne_zero, ne_eq, not_true_eq_false, not_false_eq_true,
      ↓reduceIte] at hs
    injection hs with hs
    injection hs with hret hafter
    exact ⟨hret.symm, by rw [← hafter]⟩

/-! ## Whole runs -/

/-- As long as no `amp_new_box` for a proto is refused, every state reached without an error has
a live box, gives one to every call of `amp_parse_box`, and reports every failed allocation. An
allocator looks at what it is asked for, so nothing is said about its other answers. -/
theorem alloc_failure_reported (frugal : Frugal dispatch) {mem mem' : Mem}
    {keyData : Buffer (256 + 1)} {valData : Buffer (256 * 256)} {proto : AmpProto}
    (fresh : ampNewProto mem keyData valData = .ok (some proto, mem'))
    (served : mem'.ServesBoxes) (own : σ) (events : List ParserEvent) {now : Consumer σ}
    (run : runEvents dispatch ⟨proto.toParser, mem', own⟩ events = .ok now)
    (noError : now.proto.error = 0) : Reported dispatch now := by
  have start : Consumer.Live ⟨proto.toParser, mem', own⟩ := by
    refine ⟨?_, served⟩
    intro noError
    rw [(ampNewProto_ok fresh).1]
    rfl
  have live := start.runEvents frugal run
  refine ⟨live.1 noError, fun buf s visits _ => (live.visits frugal noError visits).1,
    fun buf ret after h s visits hrest t inside refused =>
      ampConsumeBytes_storeRefused noError h visits hrest inside refused, ?_⟩
  rintro buf ret after h s visits - ⟨r, done, hparse, -, hdispatch, -, hbox⟩
  obtain ⟨hlive, hserved⟩ := live.visits frugal noError visits
  have later := (ampParseBox_keeps hlive hserved hparse).2.later (frugal _ _ _ _ hdispatch)
  rw [later 0] at hbox
  cases hbox

theorem frugal_countBoxes : Frugal countBoxes := by
  intro mem box own r h
  obtain rfl := Except.ok.inj h
  exact .refl mem

/-- There is no memory for a record. -/
def noRecords : Mem := fun _ site => site ≠ .keyval

/-- A record is refused, the proto is reset, and the next record is refused as well. -/
theorem alloc_failure_reported_noRecords :
    ∃ proto, ampNewProto noRecords (.zeros _) (.zeros _) = .ok (some proto, noRecords) ∧
      ∃ now after after', ampConsumeBytes countBoxes ⟨proto.toParser, noRecords, 0⟩
          [0, 0, 0, 1, 97, 0, 1, 98] = .ok (enomem, now) ∧
        runEvents countBoxes ⟨proto.toParser, noRecords, 0⟩
          [.consume [0, 0, 0, 1, 97, 0, 1, 98], .reset] = .ok after ∧
        ampConsumeBytes countBoxes after [0, 1, 97, 0, 1, 98] = .ok (enomem, after') ∧
        Reported countBoxes after := by
  have ran : ∃ proto, ampNewProto noRecords (.zeros _) (.zeros _) = .ok (some proto, noRecords) ∧
      ∃ now after after', ampConsumeBytes countBoxes ⟨proto.toParser, noRecords, 0⟩
          [0, 0, 0, 1, 97, 0, 1, 98] = .ok (enomem, now) ∧
        runEvents countBoxes ⟨proto.toParser, noRecords, 0⟩
          [.consume [0, 0, 0, 1, 97, 0, 1, 98], .reset] = .ok after ∧
        ampConsumeBytes countBoxes after [0, 1, 97, 0, 1, 98] = .ok (enomem, after') ∧
        after.proto.error = 0 := ⟨_, rfl, _, _, _, rfl, rfl, rfl, rfl⟩
  obtain ⟨proto, fresh, now, after, after', refused, run, again, noError⟩ := ran
  exact ⟨proto, fresh, now, after, after', refused, run, again,
    alloc_failure_reported frugal_countBoxes fresh (fun _ => rfl) 0
      [.consume [0, 0, 0, 1, 97, 0, 1, 98], .reset] run noError⟩

theorem not_reported_of_null {now : Consumer σ} (h : now.proto.box = none) :
    ¬ Reported dispatch now := by
  intro reported
  have live := reported.live
  rw [h] at live
  cases live

/-- A proto without a box cannot take the record `a` with an empty value. -/
theorem ampConsumeBytes_null {now : Consumer σ} (noError : now.proto.error = 0)
    (atStart : now.proto.At .keyLenHigh) (null : now.proto.box = none)
    (served : now.mem 0 .keyval = true) :
    ampConsumeBytes dispatch now [0, 1, 97, 0, 0, 0] = .error .nullDereference := by
  have consumed := Represents.consume_eq dispatch
    (d := ⟨.keyLenHigh, none, now.mem, now.own⟩) ⟨noError, atStart, null, rfl, rfl⟩
    [0, 1, 97, 0, 0, 0]
  have key : strlen (.ofBytes [97]) = 1 := by decide
  have run : Decoder.run dispatch ⟨.keyLenHigh, none, now.mem, now.own⟩ [0, 1, 97, 0, 0, 0] =
      .error .nullDereference := by
    simp [Decoder.run_cons, Decoder.step, Decoder.start, Decoder.store, ampPutBytes, ampPutBuf,
      malloc, served, key, maxKeyLength]
  simpa only [run] using consumed

/-- Memory runs out for the box after the first packet: the call returns 0, no error is latched,
the proto has no box, and the next record is stored through the null pointer. A reset that finds
no memory does the same. -/
theorem alloc_failure_latent :
    ∃ mem' proto,
      ampNewProto (fun n _ => n ≠ 4) (.zeros _) (.zeros _) = .ok (some proto, mem') ∧
      ∃ now, runEvents countBoxes ⟨proto.toParser, mem', 0⟩ [.consume [0, 0]] = .ok now ∧
        now.proto.error = 0 ∧ ¬ Reported countBoxes now ∧
        ampConsumeBytes countBoxes now [0, 1, 97, 0, 0, 0] = .error .nullDereference ∧
      ∃ now', runEvents countBoxes ⟨proto.toParser, mem', 0⟩ [.reset] = .ok now' ∧
        now'.proto.error = 0 ∧ ¬ Reported countBoxes now' := by
  exact ⟨_, _, rfl, _, rfl, rfl, not_reported_of_null rfl,
    ampConsumeBytes_null rfl ⟨rfl, rfl, rfl, rfl, rfl⟩ rfl rfl, _, rfl, rfl,
    not_reported_of_null rfl⟩

end LibAmp
