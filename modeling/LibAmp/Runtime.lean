import Mathlib.Data.List.TakeWhile

/-!
# The C environment of libamp

Undefined behaviour, the allocator, fixed-size byte arrays and C strings, as far as the library
depends on them. An `int` that only counts bytes or entries is an `Int` or a `Nat`, exact in the
range that `toInt_ofNat_strlen`, `numKeys_toInt32`, `Registered.length_toInt32` and
`Dispatcher.Consistent.length_toInt32` give; the integers whose width the code relies on are
`UInt32` and `Int32`.
-/

namespace LibAmp

/-- The undefined behaviour a modelled function can run into. `outOfFuel` stands for a loop
that does not end. -/
inductive Fault where
  | nullDereference
  | outOfBounds
  | uninitialised
  | outOfFuel
  deriving DecidableEq, Repr

/-! ## Error codes (`amp.h`, `errno.h`) -/

/-- `amp_error_t`: `0` for success. -/
abbrev AmpError := Int

def ampBadKeySize : AmpError := 100
def ampBadValSize : AmpError := 101
def ampBoxEmpty : AmpError := 102
def ampReqKeyMissing : AmpError := 103
def ampProtoError : AmpError := 105
def ampKeyNotFound : AmpError := 106
def ampDecodeError : AmpError := 107
def ampEncodeError : AmpError := 108
def ampOutOfRange : AmpError := 109
def ampInternalError : AmpError := 110
def ampNoSuchAskKey : AmpError := 111
def enomem : AmpError := 12

@[simp] theorem ampBadValSize_ne_zero : ampBadValSize ≠ 0 := by decide

@[simp] theorem enomem_ne_zero : enomem ≠ 0 := by decide

/-! ## The allocator -/

/-- What a call to `MALLOC` makes room for. -/
inductive Site where
  | box | errorBox | keyval | binding | packet | chunk | request | response | error | result
  | description | callback | responder | tableBinding | table | proto
  deriving DecidableEq, Repr

/-- The allocator from some moment on: whether the `n`-th call yet to come succeeds, should it
be made for a given site. Every pattern of failures is such a function. -/
abbrev Mem := Nat → Site → Bool

/-- An allocator that never fails. -/
def plenty : Mem := fun _ _ => true

/-- `MALLOC`: whether memory was found, and the allocator for the calls that follow. -/
def malloc (site : Site) (mem : Mem) : Bool × Mem := (mem 0 site, fun n => mem (n + 1))

@[simp] theorem malloc_plenty (site : Site) : malloc site plenty = (true, plenty) := rfl

/-! ## Byte arrays -/

/-- A byte array of fixed capacity, such as a `char[257]` field. -/
structure Buffer (cap : Nat) where
  bytes : List UInt8
  length_eq : bytes.length = cap

/-- An array of zeros. -/
def Buffer.zeros (cap : Nat) : Buffer cap := ⟨List.replicate cap 0, List.length_replicate⟩

/-- The bytes of `bs` with `src` written over them from `off` on. -/
def overwrite (bs : List UInt8) (off : Nat) (src : List UInt8) : List UInt8 :=
  bs.take off ++ src ++ bs.drop (off + src.length)

theorem length_overwrite {bs src : List UInt8} {off : Nat} (h : off + src.length ≤ bs.length) :
    (overwrite bs off src).length = bs.length := by
  simp only [overwrite, List.length_append, List.length_take, List.length_drop]
  omega

theorem take_overwrite {bs src : List UInt8} {off n : Nat} (hoff : off ≤ bs.length)
    (hn : n = off + src.length) : (overwrite bs off src).take n = bs.take off ++ src := by
  subst hn
  have length : (bs.take off ++ src).length = off + src.length := by
    rw [List.length_append, List.length_take_of_le hoff]
  rw [overwrite, List.take_append_of_le_length length.ge, List.take_of_length_le length.le]

/-- `memcpy(&dst[off], src, n)`: out of bounds on either side is undefined. -/
def memcpy {cap : Nat} (dst : Buffer cap) (off : Int) (src : List UInt8) (n : Int) :
    Except Fault (Buffer cap) :=
  if h : 0 ≤ off ∧ 0 ≤ n ∧ off + n ≤ cap ∧ n ≤ src.length then
    .ok ⟨overwrite dst.bytes off.toNat (src.take n.toNat), by
      rw [length_overwrite, dst.length_eq]
      rw [dst.length_eq, List.length_take]
      omega⟩
  else .error .outOfBounds

theorem memcpy_ok {cap : Nat} (dst : Buffer cap) (off : Int) (src : List UInt8) (n : Int)
    (h : 0 ≤ off ∧ 0 ≤ n ∧ off + n ≤ cap ∧ n ≤ src.length) :
    ∃ b, memcpy dst off src n = .ok b ∧
      b.bytes = overwrite dst.bytes off.toNat (src.take n.toNat) :=
  ⟨_, dif_pos h, rfl⟩

/-- Copying behind the bytes that are held already. -/
theorem memcpy_append {cap n : Nat} {dst : Buffer cap} {got : List UInt8} (src : List UInt8)
    (held : dst.bytes.take got.length = got) (room : got.length + n ≤ cap) (hn : n ≤ src.length) :
    ∃ b, memcpy dst got.length src n = .ok b ∧
      b.bytes.take (got.length + n) = got ++ src.take n := by
  obtain ⟨b, copied, bytes⟩ := memcpy_ok dst got.length src n (by omega)
  refine ⟨b, copied, ?_⟩
  have inside : got.length ≤ dst.bytes.length := by
    rw [dst.length_eq]
    omega
  have length : (src.take n).length = n := List.length_take_of_le hn
  rw [bytes, Int.toNat_natCast, Int.toNat_natCast, take_overwrite inside (by rw [length]), held]

/-- `memcmp`: the difference of the first bytes that differ. Both sides must hold `n` bytes. -/
def memcmp (s t : List UInt8) (n : Int) : Except Fault Int :=
  if 0 ≤ n ∧ n ≤ s.length ∧ n ≤ t.length then .ok (go (s.take n.toNat) (t.take n.toNat))
  else .error .outOfBounds
where
  go : List UInt8 → List UInt8 → Int
    | x :: xs, y :: ys => if x = y then go xs ys else (x.toNat : Int) - y.toNat
    | _, _ => 0

theorem memcmp_go_eq_zero {xs ys : List UInt8} (h : xs.length = ys.length) :
    memcmp.go xs ys = 0 ↔ xs = ys := by
  induction xs generalizing ys with
  | nil => cases ys <;> simp_all [memcmp.go]
  | cons x xs ih =>
    cases ys with
    | nil => simp at h
    | cons y ys =>
      by_cases hxy : x = y
      · simpa [memcmp.go, hxy] using ih (by simpa using h)
      · have : x.toNat ≠ y.toNat := fun h => hxy (UInt8.toNat_inj.1 h)
        simp [memcmp.go, hxy]
        omega

/-- Comparing the whole of two arrays of one size tells whether they are equal. -/
theorem memcmp_eq_zero {s t : List UInt8} (h : s.length = t.length) :
    ∃ c, memcmp s t t.length = .ok c ∧ (c = 0 ↔ s = t) := by
  refine ⟨memcmp.go s t, ?_, memcmp_go_eq_zero h⟩
  simp [memcmp, h, List.take_of_length_le]

/-! ## C strings -/

/-- The bytes of a C string, without the terminating NUL. -/
structure CString where
  bytes : List UInt8
  nulFree : 0 ∉ bytes
  deriving DecidableEq, Repr

@[ext] theorem CString.ext {s t : CString} (h : s.bytes = t.bytes) : s = t := by
  cases s; cases t; simp_all

def strlen (s : CString) : Nat := s.bytes.length

/-- `int keySize = strlen(key)` is exact for every string of less than 2 GiB. -/
theorem toInt_ofNat_strlen {s : CString} (short : strlen s ≤ 0x7fffffff) :
    (Int32.ofNat (strlen s)).toInt = strlen s :=
  Int32.toInt_ofNat_of_lt (Nat.lt_succ_of_le short)

/-- The bytes of an ASCII literal. -/
def ascii (s : String) : List UInt8 := s.toList.map fun c => c.toNat.toUInt8

/-- What a NUL-terminated buffer holds when read as a C string: everything before the first
NUL. A terminator is taken to follow the listed bytes. -/
def CString.ofBytes (bs : List UInt8) : CString :=
  ⟨bs.takeWhile (· ≠ 0), fun h => by simpa using List.mem_takeWhile_imp h⟩

theorem CString.ofBytes_of_nulFree {bs : List UInt8} (h : 0 ∉ bs) :
    (CString.ofBytes bs).bytes = bs :=
  List.takeWhile_eq_self_iff.2 fun x hx => by
    simpa using fun h0 : x = 0 => h (h0 ▸ hx)

@[simp] theorem CString.ofBytes_bytes (s : CString) : CString.ofBytes s.bytes = s :=
  CString.ext (CString.ofBytes_of_nulFree s.nulFree)

/-- A terminator ends the string whatever follows it. -/
theorem CString.ofBytes_append_nul (bs tail : List UInt8) :
    CString.ofBytes (bs ++ 0 :: tail) = CString.ofBytes bs := by
  apply CString.ext
  simp only [CString.ofBytes, List.takeWhile_append]
  split
  · next h => simpa using ((List.takeWhile_prefix _).eq_of_length h).symm
  · rfl

/-- Reading an array as a C string is undefined without a NUL inside it. -/
def Buffer.cstring {cap : Nat} (b : Buffer cap) : Except Fault CString :=
  if 0 ∈ b.bytes then .ok (CString.ofBytes b.bytes) else .error .outOfBounds

/-- `strcmp`, the bytes compared as `unsigned char`. -/
def strcmp (s t : CString) : Int := go s.bytes t.bytes
where
  go : List UInt8 → List UInt8 → Int
    | [], [] => 0
    | [], y :: _ => -(y.toNat : Int)
    | x :: _, [] => x.toNat
    | x :: xs, y :: ys => if x = y then go xs ys else (x.toNat : Int) - y.toNat

theorem strcmp_go_eq_zero {xs ys : List UInt8} (hx : 0 ∉ xs) (hy : 0 ∉ ys) :
    strcmp.go xs ys = 0 ↔ xs = ys := by
  have pos {x : UInt8} {l : List UInt8} (h : 0 ∉ x :: l) : x.toNat ≠ 0 := fun h0 =>
    h (by simp [show x = 0 from UInt8.toNat_inj.1 h0])
  induction xs, ys using strcmp.go.induct with
  | case1 => simp [strcmp.go]
  | case2 y ys => simpa [strcmp.go] using pos hy
  | case3 x xs => simpa [strcmp.go] using pos hx
  | case4 x xs ys ih => simpa [strcmp.go] using ih (by simp_all) (by simp_all)
  | case5 x xs y ys hne =>
    have : x.toNat ≠ y.toNat := fun h => hne (UInt8.toNat_inj.1 h)
    simp [strcmp.go, hne]
    omega

@[simp] theorem strcmp_eq_zero {s t : CString} : strcmp s t = 0 ↔ s = t := by
  rw [strcmp, strcmp_go_eq_zero s.nulFree t.nulFree]
  exact ⟨CString.ext, congrArg _⟩

end LibAmp
