import Mathlib.Tactic

/-!
# Big-endian fields of byte strings

Byte strings are lists of octets; a codec writes fixed-width unsigned fields in big-endian order
and reads them back from slices at fixed positions.

* `getBE_putBE`, `putBE_getBE` — a width of `n` octets and the numbers below `256 ^ n` are in
  bijection;
* `slice_append_right`, `slice_append_left` — a field is read from the part that holds it;
* `drop_eq_slice_append` — a string is the field at a position followed by what comes after it,
  the equation every "encode what was decoded" argument unfolds a layout with.
-/

namespace Rendr.Octets

open List

/-- A byte string. -/
abbrev Bytes := List UInt8

/-- The `n` low octets of `x`, most significant first. -/
def putBE : Nat → Nat → Bytes
  | 0, _ => []
  | n + 1, x => UInt8.ofNat (x / 256 ^ n) :: putBE n x

/-- The number a big-endian string stands for, on top of the digits `acc` read before it. -/
def getBEFrom (acc : Nat) : Bytes → Nat
  | [] => acc
  | b :: bs => getBEFrom (acc * 256 + b.toNat) bs

/-- The number a big-endian string stands for. -/
def getBE (bs : Bytes) : Nat := getBEFrom 0 bs

@[simp] lemma length_putBE (n x : Nat) : (putBE n x).length = n := by
  induction n with
  | zero => rfl
  | succ n ih => simp [putBE, ih]

lemma getBEFrom_eq (acc : Nat) (bs : Bytes) :
    getBEFrom acc bs = acc * 256 ^ bs.length + getBE bs := by
  induction bs generalizing acc with
  | nil => simp [getBE, getBEFrom]
  | cons b bs ih =>
    simp only [getBE, getBEFrom, length_cons]
    rw [ih (acc * 256 + b.toNat), ih (0 * 256 + b.toNat)]
    ring

variable (b : UInt8)

lemma getBE_cons (bs : Bytes) : getBE (b :: bs) = b.toNat * 256 ^ bs.length + getBE bs := by
  have h : getBE (b :: bs) = getBEFrom (0 * 256 + b.toNat) bs := rfl
  rw [h, getBEFrom_eq]
  ring

lemma getBE_lt (bs : Bytes) : getBE bs < 256 ^ bs.length := by
  induction bs with
  | nil => simp [getBE, getBEFrom]
  | cons b bs ih =>
    have hb : b.toNat < 256 := b.toNat_lt
    rw [getBE_cons, length_cons, pow_succ]
    calc b.toNat * 256 ^ bs.length + getBE bs
        < b.toNat * 256 ^ bs.length + 256 ^ bs.length := by omega
      _ = (b.toNat + 1) * 256 ^ bs.length := by ring
      _ ≤ 256 * 256 ^ bs.length := Nat.mul_le_mul_right _ hb
      _ = 256 ^ bs.length * 256 := by ring

/-- Only the low octets of a number are written. -/
lemma putBE_mod (n x : Nat) : putBE n (x % 256 ^ n) = putBE n x := by
  suffices h : ∀ m, n ≤ m → putBE n (x % 256 ^ m) = putBE n x from h n le_rfl
  induction n with
  | zero => intro m _; rfl
  | succ n ih =>
    intro m hm
    simp only [putBE, ih m (by omega)]
    congr 1
    obtain ⟨k, rfl⟩ : ∃ k, m = n + (k + 1) := ⟨m - n - 1, by omega⟩
    rw [pow_add, Nat.mod_mul_right_div_self, pow_succ']
    apply UInt8.toNat_inj.mp
    rw [UInt8.toNat_ofNat', UInt8.toNat_ofNat']
    exact Nat.mod_mod_of_dvd _ (Dvd.intro _ rfl)

lemma getBE_putBE {n x : Nat} (hx : x < 256 ^ n) : getBE (putBE n x) = x := by
  induction n generalizing x with
  | zero => simp at hx; subst hx; rfl
  | succ n ih =>
    have hpos : 0 < 256 ^ n := by positivity
    have hq : x / 256 ^ n < 256 := Nat.div_lt_of_lt_mul (by rwa [← pow_succ])
    have ihm := ih (Nat.mod_lt x hpos)
    rw [putBE_mod] at ihm
    simp only [putBE, getBE_cons, length_putBE, ihm, UInt8.toNat_ofNat']
    rw [Nat.mod_eq_of_lt hq, Nat.mul_comm]
    exact Nat.div_add_mod x _

lemma putBE_getBE (bs : Bytes) : putBE bs.length (getBE bs) = bs := by
  induction bs with
  | nil => rfl
  | cons b bs ih =>
    have hlt := getBE_lt bs
    have hpos : 0 < 256 ^ bs.length := by positivity
    simp only [length_cons, putBE, getBE_cons]
    congr 1
    · rw [Nat.mul_comm, Nat.mul_add_div hpos, Nat.div_eq_of_lt hlt, Nat.add_zero]
      exact UInt8.ofNat_toNat
    · rw [← putBE_mod, Nat.mul_comm, Nat.mul_add_mod, Nat.mod_eq_of_lt hlt, ih]

/-! ### Slices -/

/-- The `n` octets of `bs` from position `i`. -/
def slice (bs : Bytes) (i n : Nat) : Bytes := (bs.drop i).take n

variable {bs : Bytes}

lemma length_slice {i n : Nat} (h : i + n ≤ bs.length) : (slice bs i n).length = n := by
  simp only [slice, length_take, length_drop]
  omega

variable {a r : Bytes} {n : Nat}

/-- A field at the front. -/
lemma slice_append_left (h : a.length = n) : slice (a ++ r) 0 n = a := by
  subst h
  simp [slice]

/-- A field behind a part of known length. -/
lemma slice_append_right {i n : Nat} (h : a.length ≤ i) :
    slice (a ++ r) i n = slice r (i - a.length) n := by
  simp only [slice, drop_append, drop_of_length_le h, nil_append]

variable {i : Nat}

@[simp] lemma drop_append_right (h : a.length ≤ i) : (a ++ r).drop i = r.drop (i - a.length) := by
  rw [drop_append, drop_of_length_le h, nil_append]

/-- The rest of a string is the field there and the rest behind it. -/
lemma drop_eq_slice_append (bs : Bytes) (i n : Nat) :
    bs.drop i = slice bs i n ++ bs.drop (i + n) := by
  rw [slice, ← drop_drop, take_append_drop]

/-- Two fields side by side are one field. -/
lemma slice_join {i n j m : Nat} (h : j = i + n) :
    slice bs i n ++ slice bs j m = slice bs i (n + m) := by
  subst h
  simp only [slice, ← drop_drop, ← take_add]

lemma slice_join_drop {i n j : Nat} (h : j = i + n) : slice bs i n ++ bs.drop j = bs.drop i := by
  subst h
  exact (drop_eq_slice_append ..).symm

lemma slice_all (h : bs.length = n) : slice bs 0 n = bs := by
  subst h
  simp [slice]

/-! ### Unsigned fields -/

/-- `binary.BigEndian.PutUint16`. -/
def put16 (x : UInt16) : Bytes := putBE 2 x.toNat

/-- `binary.BigEndian.PutUint32`. -/
def put32 (x : UInt32) : Bytes := putBE 4 x.toNat

/-- `binary.BigEndian.PutUint64`. -/
def put64 (x : UInt64) : Bytes := putBE 8 x.toNat

/-- `binary.BigEndian.Uint16` of the two octets at `i`. -/
def get16 (bs : Bytes) (i : Nat) : UInt16 := UInt16.ofNat (getBE (slice bs i 2))

/-- `binary.BigEndian.Uint32` of the four octets at `i`. -/
def get32 (bs : Bytes) (i : Nat) : UInt32 := UInt32.ofNat (getBE (slice bs i 4))

/-- `binary.BigEndian.Uint64` of the eight octets at `i`. -/
def get64 (bs : Bytes) (i : Nat) : UInt64 := UInt64.ofNat (getBE (slice bs i 8))

/-- The octet at `i` (0 beyond the end, which no decoder reads). -/
def get8 (bs : Bytes) (i : Nat) : UInt8 := bs.getD i 0

@[simp] lemma length_put16 (x : UInt16) : (put16 x).length = 2 := length_putBE ..
@[simp] lemma length_put32 (x : UInt32) : (put32 x).length = 4 := length_putBE ..
@[simp] lemma length_put64 (x : UInt64) : (put64 x).length = 8 := length_putBE ..

@[simp] lemma get16_put16 (x : UInt16) (r : Bytes) : get16 (put16 x ++ r) 0 = x := by
  rw [get16, slice_append_left (length_put16 x), put16, getBE_putBE x.toNat_lt]
  exact UInt16.ofNat_toNat

@[simp] lemma get32_put32 (x : UInt32) (r : Bytes) : get32 (put32 x ++ r) 0 = x := by
  rw [get32, slice_append_left (length_put32 x), put32, getBE_putBE x.toNat_lt]
  exact UInt32.ofNat_toNat

@[simp] lemma get64_put64 (x : UInt64) (r : Bytes) : get64 (put64 x ++ r) 0 = x := by
  rw [get64, slice_append_left (length_put64 x), put64, getBE_putBE x.toNat_lt]
  exact UInt64.ofNat_toNat

@[simp] lemma get8_cons (r : Bytes) : get8 (b :: r) 0 = b := rfl

@[simp] lemma get32_put32_last (x : UInt32) : get32 (put32 x) 0 = x := by
  simpa using get32_put32 x []

@[simp] lemma get64_put64_last (x : UInt64) : get64 (put64 x) 0 = x := by
  simpa using get64_put64 x []

@[simp] lemma get16_append (h : a.length ≤ i) :
    get16 (a ++ r) i = get16 r (i - a.length) := by rw [get16, slice_append_right h]; rfl

@[simp] lemma get32_append (h : a.length ≤ i) :
    get32 (a ++ r) i = get32 r (i - a.length) := by rw [get32, slice_append_right h]; rfl

@[simp] lemma get64_append (h : a.length ≤ i) :
    get64 (a ++ r) i = get64 r (i - a.length) := by rw [get64, slice_append_right h]; rfl

@[simp] lemma get8_append (h : a.length ≤ i) : get8 (a ++ r) i = get8 r (i - a.length) := by
  simp [get8, getElem?_append_right h]

@[simp] lemma get16_cons_succ (h : 1 ≤ i) :
    get16 (b :: r) i = get16 r (i - 1) := get16_append (a := [b]) h

@[simp] lemma get32_cons_succ (h : 1 ≤ i) :
    get32 (b :: r) i = get32 r (i - 1) := get32_append (a := [b]) h

@[simp] lemma get64_cons_succ (h : 1 ≤ i) :
    get64 (b :: r) i = get64 r (i - 1) := get64_append (a := [b]) h

@[simp] lemma get8_cons_succ (h : 1 ≤ i) :
    get8 (b :: r) i = get8 r (i - 1) := get8_append (a := [b]) h

/-! ### Blocks of octets -/

/-- The `n` octets at `i`, as an array. -/
def getBlock (n : Nat) (bs : Bytes) (i : Nat) : Fin n → UInt8 := fun k => get8 bs (i + k)

/-- The octets of an array. -/
def putBlock {n : Nat} (a : Fin n → UInt8) : Bytes := List.ofFn a

@[simp] lemma length_putBlock (a : Fin n → UInt8) : (putBlock a).length = n :=
  length_ofFn

lemma putBlock_getBlock (h : i + n ≤ bs.length) : putBlock (getBlock n bs i) = slice bs i n := by
  apply ext_getElem
  · rw [length_putBlock, length_slice h]
  intro k hk hk'
  rw [length_putBlock] at hk
  have hik : i + k < bs.length := by omega
  simp [putBlock, getBlock, slice, get8, getElem?_eq_getElem hik]

@[simp] lemma getBlock_putBlock (a : Fin n → UInt8) (r : Bytes) :
    getBlock n (putBlock a ++ r) 0 = a := by
  funext k
  have hk : k.val < (putBlock a).length := by rw [length_putBlock]; exact k.isLt
  simp only [getBlock, get8, Nat.zero_add, getD_eq_getElem?_getD]
  rw [getElem?_append_left hk, getElem?_eq_getElem hk, Option.getD_some]
  exact List.getElem_ofFn ..

@[simp] lemma getBlock_append (h : a.length ≤ i) :
    getBlock n (a ++ r) i = getBlock n r (i - a.length) := by
  funext k
  rw [getBlock, get8_append (by omega), getBlock]
  congr 1
  omega

@[simp] lemma getBlock_cons_succ (h : 1 ≤ i) :
    getBlock n (b :: r) i = getBlock n r (i - 1) := getBlock_append (a := [b]) h

/-! ### Written fields read back -/

/-- The octets of a field, written again from its number, in the modulus `m` of its type. -/
lemma putBE_slice {i n m : Nat} (hm : m = 256 ^ n) (h : i + n ≤ bs.length) :
    putBE n (getBE (slice bs i n) % m) = slice bs i n := by
  have hl := length_slice h
  have heq := putBE_getBE (slice bs i n)
  rw [hl] at heq
  rw [hm, putBE_mod, heq]

lemma put16_get16 (h : i + 2 ≤ bs.length) : put16 (get16 bs i) = slice bs i 2 := by
  rw [put16, get16, UInt16.toNat_ofNat', putBE_slice (by norm_num) h]

lemma put32_get32 (h : i + 4 ≤ bs.length) : put32 (get32 bs i) = slice bs i 4 := by
  rw [put32, get32, UInt32.toNat_ofNat', putBE_slice (by norm_num) h]

lemma put64_get64 (h : i + 8 ≤ bs.length) : put64 (get64 bs i) = slice bs i 8 := by
  rw [put64, get64, UInt64.toNat_ofNat', putBE_slice (by norm_num) h]

lemma get8_slice (h : i + 1 ≤ bs.length) : [get8 bs i] = slice bs i 1 := by
  have hi : i < bs.length := h
  rw [slice, drop_eq_getElem_cons hi]
  simp only [get8, getD_eq_getElem?_getD, getElem?_eq_getElem hi, Option.getD_some,
    take_succ_cons, take_zero]

end Rendr.Octets
