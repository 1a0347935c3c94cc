import LibAmp.Parser

/-!
# Decoding byte by byte

An abstract machine that takes one byte at a time and remembers only what the bytes so far mean:
no buffers, no counters. It says what the parser is for; `LibAmp.ParserSpec` shows that
`amp_consume_bytes` computes it, however the bytes are cut into buffers.
-/

namespace LibAmp

/-- How far the decoder is inside a record. -/
inductive Phase where
  | keyLenHigh
  | keyLenLow
  | keyData (len : Nat) (got : List UInt8)
  | valLenHigh (key : List UInt8)
  | valLenLow (key : List UInt8) (high : UInt8)
  | valData (key : List UInt8) (len : Nat) (got : List UInt8)
  deriving DecidableEq, Repr

variable {σ : Type}

structure Decoder (σ : Type) where
  phase : Phase
  box : Option AmpBox
  mem : Mem
  own : σ

/-- After some bytes: still decoding, or stopped by an error for good. -/
inductive Progress (σ : Type) where
  | ongoing (d : Decoder σ)
  | failed (ret : Int) (mem : Mem) (own : σ)

/-- Go on unless an error has stopped the decoder. -/
def Progress.andThen (r : Except Fault (Progress σ))
    (f : Decoder σ → Except Fault (Progress σ)) : Except Fault (Progress σ) :=
  match r with
  | .ok (.ongoing d) => f d
  | .ok (.failed ret mem own) => .ok (.failed ret mem own)
  | .error e => .error e

namespace Decoder

/-- Store a complete record. -/
def store (d : Decoder σ) (key value : List UInt8) : Except Fault (Progress σ) :=
  match ampPutBytes d.mem d.box (.ofBytes key) value value.length with
  | .error e => .error e
  | .ok r =>
    if r.ret ≠ 0 then .ok (.failed r.ret r.mem d.own)
    else .ok (.ongoing ⟨.keyLenHigh, r.box, r.mem, d.own⟩)

/-- Dispatch a complete box and start on a new one. -/
def finishBox (dispatch : DispatchBox σ) (d : Decoder σ) : Except Fault (Progress σ) :=
  match dispatch d.mem d.box d.own with
  | .error e => .error e
  | .ok r =>
    if r.ret ≠ 0 then .ok (.failed r.ret r.mem r.own)
    else .ok (.ongoing ⟨.keyLenHigh, (ampNewBox .box r.mem).1, (ampNewBox .box r.mem).2, r.own⟩)

/-- The first byte of a record. -/
def start (d : Decoder σ) (c : UInt8) : Progress σ :=
  if c ≠ 0 then .failed ampBadKeySize d.mem d.own else .ongoing { d with phase := .keyLenLow }

/-- Take one byte. A value of no bytes is stored when the byte after it arrives. -/
def step (dispatch : DispatchBox σ) (d : Decoder σ) (c : UInt8) : Except Fault (Progress σ) :=
  match d.phase with
  | .keyLenHigh => .ok (d.start c)
  | .keyLenLow =>
    if c = 0 then d.finishBox dispatch
    else .ok (.ongoing { d with phase := .keyData c.toNat [] })
  | .keyData len got =>
    if got.length + 1 < len then .ok (.ongoing { d with phase := .keyData len (got ++ [c]) })
    else .ok (.ongoing { d with phase := .valLenHigh (got ++ [c]) })
  | .valLenHigh key => .ok (.ongoing { d with phase := .valLenLow key c })
  | .valLenLow key high =>
    .ok (.ongoing { d with phase := .valData key (high.toNat * 256 + c.toNat) [] })
  | .valData key len got =>
    if got.length = len then
      Progress.andThen (d.store key got) fun d => .ok (d.start c)
    else if got.length + 1 < len then
      .ok (.ongoing { d with phase := .valData key len (got ++ [c]) })
    else d.store key (got ++ [c])

def run (dispatch : DispatchBox σ) (d : Decoder σ) : List UInt8 → Except Fault (Progress σ)
  | [] => .ok (.ongoing d)
  | c :: s => Progress.andThen (d.step dispatch c) fun d => d.run dispatch s

end Decoder

/-! ## Runs -/

section Runs

variable {dispatch : DispatchBox σ} {d : Decoder σ} {s t : List UInt8}

@[simp] theorem Progress.andThen_ongoing {f : Decoder σ → Except Fault (Progress σ)} :
    andThen (.ok (.ongoing d)) f = f d := rfl

@[simp] theorem Progress.andThen_failed {ret : Int} {mem : Mem} {own : σ}
    {f : Decoder σ → Except Fault (Progress σ)} :
    andThen (.ok (.failed ret mem own)) f = .ok (.failed ret mem own) := rfl

@[simp] theorem Progress.andThen_error {e : Fault}
    {f : Decoder σ → Except Fault (Progress σ)} : andThen (.error e) f = .error e := rfl

theorem Progress.andThen_assoc {r : Except Fault (Progress σ)}
    {f g : Decoder σ → Except Fault (Progress σ)} :
    andThen (andThen r f) g = andThen r fun d => andThen (f d) g := by
  rcases r with e | ⟨d | ⟨ret, mem, own⟩⟩ <;> rfl

namespace Decoder

@[simp] theorem run_nil : d.run dispatch [] = .ok (.ongoing d) := rfl

theorem run_cons {c : UInt8} :
    d.run dispatch (c :: s) =
      Progress.andThen (d.step dispatch c) fun d => d.run dispatch s := rfl

/-- Bytes that arrive in two parts are decoded as if they had arrived at once. -/
theorem run_append :
    d.run dispatch (s ++ t) =
      Progress.andThen (d.run dispatch s) fun d => d.run dispatch t := by
  induction s generalizing d with
  | nil => rfl
  | cons c s ih =>
    rw [List.cons_append, run_cons, run_cons, Progress.andThen_assoc]
    congr 1
    funext d
    exact ih

/-- A pending value of no bytes is stored before anything else. -/
theorem run_settle {key : List UInt8} (hd : d.phase = .valData key 0 []) (hs : s ≠ []) :
    d.run dispatch s =
      Progress.andThen (d.store key []) fun d => d.run dispatch s := by
  obtain ⟨c, s, rfl⟩ := List.exists_cons_of_ne_nil hs
  rw [run_cons, step, hd]
  simp only [List.length_nil, ↓reduceIte, Progress.andThen_assoc]
  unfold store
  rcases ampPutBytes d.mem d.box (.ofBytes key) [] (List.length (α := UInt8) []) with e | r
  · rfl
  · by_cases hr : r.ret = 0
    · simp [hr, run_cons, step]
    · simp [hr]

/-- Part of a key. -/
theorem run_keyData_part {len : Nat} {got : List UInt8} (hd : d.phase = .keyData len got)
    (hs : got.length + s.length < len) :
    d.run dispatch s = .ok (.ongoing { d with phase := .keyData len (got ++ s) }) := by
  induction s generalizing d got with
  | nil => simp [← hd]
  | cons c s ih =>
    simp only [List.length_cons] at hs
    have more : got.length + 1 < len := by omega
    rw [run_cons, step, hd]
    simp only [more, ↓reduceIte, Progress.andThen_ongoing]
    rw [ih rfl (by simp; omega)]
    simp

/-- The rest of a key. -/
theorem run_keyData_rest {len : Nat} {got : List UInt8} (hd : d.phase = .keyData len got)
    (hs : got.length + s.length = len) (hgot : got.length < len) :
    d.run dispatch s = .ok (.ongoing { d with phase := .valLenHigh (got ++ s) }) := by
  rcases List.eq_nil_or_concat s with rfl | ⟨init, c, rfl⟩
  · simp at hs
    omega
  simp only [List.concat_eq_append, List.length_append, List.length_cons, List.length_nil] at hs ⊢
  rw [run_append, run_keyData_part hd (by omega), Progress.andThen_ongoing, run_cons, step]
  have last : ¬ (got ++ init).length + 1 < len := by simp; omega
  simp only [last, ↓reduceIte]
  simp

/-- Part of a value. -/
theorem run_valData_part {key got : List UInt8} {len : Nat}
    (hd : d.phase = .valData key len got) (hs : got.length + s.length < len) :
    d.run dispatch s = .ok (.ongoing { d with phase := .valData key len (got ++ s) }) := by
  induction s generalizing d got with
  | nil => simp [← hd]
  | cons c s ih =>
    simp only [List.length_cons] at hs
    have notFull : ¬ got.length = len := by omega
    have more : got.length + 1 < len := by omega
    rw [run_cons, step, hd]
    simp only [notFull, more, ↓reduceIte, Progress.andThen_ongoing]
    rw [ih rfl (by simp; omega)]
    simp

/-- The rest of a value, which completes the record. -/
theorem run_valData_rest {key got : List UInt8} {len : Nat}
    (hd : d.phase = .valData key len got) (hs : got.length + s.length = len)
    (hgot : got.length < len) : d.run dispatch s = d.store key (got ++ s) := by
  rcases List.eq_nil_or_concat s with rfl | ⟨init, c, rfl⟩
  · simp at hs
    omega
  simp only [List.concat_eq_append, List.length_append, List.length_cons, List.length_nil] at hs ⊢
  rw [run_append, run_valData_part hd (by omega), Progress.andThen_ongoing, run_cons, step]
  have notFull : ¬ (got ++ init).length = len := by simp; omega
  have last : ¬ (got ++ init).length + 1 < len := by simp; omega
  simp only [notFull, last, ↓reduceIte, List.append_assoc]
  rw [show ({ d with phase := Phase.valData key len (got ++ init) } : Decoder σ).store key
    (got ++ (init ++ [c])) = d.store key (got ++ (init ++ [c])) from rfl]
  rcases d.store key (got ++ (init ++ [c])) with e | ⟨d | ⟨ret, mem, own⟩⟩ <;> rfl

/-- A value is stored once all its bytes are there and, for a value of no bytes, another byte
follows. -/
theorem run_value {key got : List UInt8} {len n : Nat} (hd : d.phase = .valData key len got)
    (hgot : got.length < len ∨ len = 0 ∧ got = []) (hlen : got.length + n = len)
    (hn : n ≤ s.length) (hs : s ≠ []) :
    d.run dispatch s =
      Progress.andThen (d.store key (got ++ s.take n)) fun d => d.run dispatch (s.drop n) := by
  rcases Nat.eq_zero_or_pos n with rfl | pos
  · obtain ⟨rfl, rfl⟩ : len = 0 ∧ got = [] := by
      rcases hgot with h | h
      · omega
      · exact h
    simpa using run_settle hd hs
  · have length : (s.take n).length = n := List.length_take_of_le hn
    rw [← run_valData_rest hd (by rw [length, hlen]) (by omega), ← run_append,
      List.take_append_drop]

end Decoder

end Runs

end LibAmp
