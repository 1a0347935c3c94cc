import LibAmp.CallSpec
import LibAmp.Packets

/-!
# Responding to a request

A request has an ask key exactly if its box had `_ask`. `amp_respond` does not look: it reads the
ask key through a null pointer if there is none.

## Main results

* `respond_well_defined_iff` — responding does what it should for requests that can be answered,
  and for no other.
* `respond_without_ask` — a request the dispatcher makes that cannot be responded to.
-/

namespace LibAmp

variable {U : Type} {write : WriteHandler U} {proto : Dispatcher} {box args : AmpBox}
  {wfunc warg : Nat} {own : U}

/-! ## The ask key of a request -/

theorem optionalChunk_ok (wf : box.WF) {mem mem' : Mem} {key : CString} {chunk : Option AmpChunk}
    (h : optionalChunk mem box key = (.ok chunk, mem')) :
    chunk = (box.toMap.lookup key).map AmpChunk.mk := by
  unfold optionalChunk at h
  split at h
  · next present =>
    obtain ⟨value, found⟩ := Finmap.mem_iff.1 (wf.hasKey_ne_zero.1 present)
    simp only [wf.getBytes found, ampChunkCopyBuffer, malloc_eq] at h
    cases served : mem 0 .chunk <;> rw [served] at h <;> cases h
    rw [found]
    rfl
  · next missing =>
    have absent : key ∉ box.toMap := fun present => missing (wf.hasKey_ne_zero.2 present)
    cases h
    rw [Finmap.lookup_eq_none.2 absent]
    rfl

/-- Whatever the allocator did before, a request carries the bytes of `_ask`, if there are any. -/
theorem ampNewRequestFromBox_askKey (wf : box.WF) {mem mem' : Mem} {request : AmpRequest}
    (h : ampNewRequestFromBox mem box = (.ok request, mem')) :
    request.askKey = (box.toMap.lookup Key.ask).map AmpChunk.mk := by
  unfold ampNewRequestFromBox at h
  split at h
  · cases h
  split at h
  · cases h
  split at h
  · cases h
  split at h
  · cases h
  · next askKey _ read =>
    cases h
    exact optionalChunk_ok wf read

/-! ## Responding -/

/-- Responding to the request of a box with `_ask` writes one packet, the answer under that key,
and to that of any other box nothing, which the return value tells. -/
def RespondsWell (write : WriteHandler U) (wfunc warg : Nat) (proto : Dispatcher) (box : AmpBox)
    (request : AmpRequest) (args : AmpBox) (own : U) : Prop :=
  ∃ r, ampRespond write proto plenty request (some args) own = .ok r ∧
    match box.toMap.lookup Key.ask with
    | some ask => r.ret = 0 ∧ ∃ packet, DecodesTo packet (args.toMap.insert Key.answer ask) ∧
        r.own = (write wfunc warg packet own).2
    | none => r.ret ≠ 0 ∧ r.own = own

theorem respond_well_defined_iff (boxWf : box.WF) {mem mem' : Mem} {request : AmpRequest}
    (made : ampNewRequestFromBox mem box = (.ok request, mem')) (wf : args.WF)
    (fits : ∀ ask, box.toMap.lookup Key.ask = some ask →
      (serializedBytes (args.add Key.answer ask)).length ≤ intMax)
    (installed : proto.write = .installed wfunc warg)
    (writes : ∀ packet own, (write wfunc warg packet own).1 = 0) :
    RespondsWell write wfunc warg proto box request args own ↔ Key.ask ∈ box.toMap := by
  have askKey := ampNewRequestFromBox_askKey boxWf made
  unfold RespondsWell
  rcases asked : box.toMap.lookup Key.ask with _ | ask <;> rw [asked] at askKey
  · refine iff_of_false ?_ (Finmap.lookup_eq_none.1 asked)
    rintro ⟨r, responded, -⟩
    rw [ampRespond, askKey] at responded
    cases responded
  · refine iff_of_true ?_ (Finmap.mem_iff.2 ⟨ask, asked⟩)
    have storable : Storable Key.answer ask := ⟨by decide, by decide, (boxWf.bounds asked).2.2⟩
    obtain ⟨-, wf', map⟩ := wf.add storable
    refine ⟨_, ampRespond_written own wf askKey storable installed (fits ask asked),
      writes _ own, serializedBytes (args.add Key.answer ask), ?_, rfl⟩
    rw [← map]
    exact wf'.decodesTo

/-! ## A request with an ask key, and one without -/

/-- A handler that accepts every packet. -/
def acceptWrite : WriteHandler (List (List UInt8)) := fun _ _ packet own => (0, own ++ [packet])

def tellBox : AmpBox := .single Key.command (ascii "sum")

def replyBox : AmpBox := .single ⟨ascii "reply", by decide⟩ (ascii "94")

def askBox : AmpBox := tellBox.add Key.ask (ascii "1")

theorem tellBox_map : tellBox.WF ∧ tellBox.toMap = Finmap.insert Key.command (ascii "sum") ∅ :=
  AmpBox.wf_single (by decide)

theorem askBox_map : askBox.WF ∧
    askBox.toMap = (Finmap.insert Key.command (ascii "sum") ∅).insert Key.ask (ascii "1") := by
  obtain ⟨-, wf, map⟩ := tellBox_map.1.add (show Storable Key.ask (ascii "1") by decide)
  exact ⟨wf, by rw [askBox, map, tellBox_map.2]⟩

theorem askBox_asked : askBox.toMap.lookup Key.ask = some (ascii "1") := by
  rw [askBox_map.2, Finmap.lookup_insert]

theorem askBox_commanded : askBox.toMap.lookup Key.command = some (ascii "sum") := by
  rw [askBox_map.2, Finmap.lookup_insert_of_ne _ (by decide), Finmap.lookup_insert]

theorem respond_well_defined_iff_ask :
    ∃ (proto : Dispatcher) (request : AmpRequest),
      ampNewRequestFromBox plenty askBox = (.ok request, plenty) ∧
      RespondsWell acceptWrite 0 0 proto askBox request replyBox [] := by
  obtain ⟨new, -⟩ := ampNewProto_plenty (.zeros _) (.zeros _)
  have made := askBox_map.1.newRequest askBox_commanded
  have present : Key.ask ∈ askBox.toMap := Finmap.mem_iff.2 ⟨_, askBox_asked⟩
  have replyWf : replyBox.WF := (AmpBox.wf_single (by decide)).1
  refine ⟨ampSetWriteHandler new.toDispatcher 0 0, _, made, (respond_well_defined_iff
    askBox_map.1 made replyWf ?_ rfl fun _ _ => rfl).2 present⟩
  intro ask found
  obtain rfl : ascii "1" = ask := Option.some.inj (askBox_asked.symm.trans found)
  decide

/-- A box without `_ask` makes a request that cannot be responded to. -/
theorem respond_without_ask :
    ∃ (proto : Dispatcher) (request : AmpRequest),
      ampNewRequestFromBox plenty tellBox = (.ok request, plenty) ∧
      proto.write = .installed 0 0 ∧
      ampRespond acceptWrite proto plenty request (some replyBox) [] = .error .nullDereference := by
  obtain ⟨new, -⟩ := ampNewProto_plenty (.zeros _) (.zeros _)
  have commanded : tellBox.toMap.lookup Key.command = some (ascii "sum") := by
    rw [tellBox_map.2, Finmap.lookup_insert]
  have notAsked : tellBox.toMap.lookup Key.ask = none := by
    rw [tellBox_map.2, Finmap.lookup_insert_of_ne _ (by decide), Finmap.lookup_empty]
  have made := tellBox_map.1.newRequest commanded
  rw [notAsked] at made
  exact ⟨ampSetWriteHandler new.toDispatcher 0 0, _, made, rfl, rfl⟩

end LibAmp
