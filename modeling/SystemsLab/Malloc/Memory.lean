import Mathlib.Algebra.Group.Nat.Basic
import Mathlib.Logic.Function.Basic

/-!
# Malloc.Memory

The bytes the allocator of `mm.c` works in, and the one kind of word it stores in them: the
`struct boundary_tag` of a block's header and footer, an in-use bit and a 63-bit size in words.
The two `size_t` bit fields make a tag one 8-byte word (`WSIZE` is 8; the two asserts of `mm_init`
that it is 4 hold on no 64-bit build, so the allocator runs as built with `NDEBUG`), stored little
endian as on x86-64: bit 0 is `inuse`, bits 1 to 63 are `size`.

`memcpy` is a forward copy, byte after byte. On the one overlap the allocator makes (`mm_realloc`
copying a payload down into the free block before it) that is also what `memmove` does.

* `readLE_writeLE_self`, `writeLE_apply`, `readLE_congr`: a word reads back as written, and a
  write leaves every byte outside it alone.
* `readTag_writeTag_self`: a tag reads back as written.
* `copyBytes_self_add`: a forward copy down (or to a place it does not overlap) gives the
  source's bytes.
-/

namespace SystemsLab
namespace Malloc

/-! ## Little-endian words -/

/-- The `n` bytes from `a`, as a little-endian number. -/
def readLE (m : Nat → UInt8) (a : Nat) : Nat → Nat
  | 0 => 0
  | n + 1 => (m a).toNat + 256 * readLE m (a + 1) n

/-- Stores the low `n` bytes of `v` from `a`, least significant first. -/
def writeLE (m : Nat → UInt8) (a v n : Nat) : Nat → UInt8 :=
  fun x => if a ≤ x ∧ x < a + n then UInt8.ofNat (v / 256 ^ (x - a)) else m x

theorem toNat_ofNat_byte (v : Nat) : (UInt8.ofNat v).toNat = v % 256 := rfl

/-- A write of `n` bytes from `a` leaves every other byte alone. -/
theorem writeLE_apply {m : Nat → UInt8} {a v n x : Nat} (hx : x < a ∨ a + n ≤ x) :
    writeLE m a v n x = m x :=
  if_neg (by omega)

/-- Two memories that agree on `n` bytes from `a` read the same word there. -/
theorem readLE_congr {m m' : Nat → UInt8} {a n : Nat} (h : ∀ x, a ≤ x → x < a + n → m x = m' x) :
    readLE m a n = readLE m' a n := by
  induction n generalizing a with
  | zero => rfl
  | succ n ih =>
    rw [readLE, readLE, h a (Nat.le_refl a) (by omega),
      ih fun x h1 h2 => h x (by omega) (by omega)]

theorem readLE_writeLE (m : Nat → UInt8) (a v n : Nat) :
    ∀ {j k : Nat}, j + k ≤ n → readLE (writeLE m a v n) (a + j) k = v / 256 ^ j % 256 ^ k
  | _, 0, _ => by simp [readLE, Nat.mod_one]
  | j, k + 1, h => by
    have hbyte : writeLE m a v n (a + j) = UInt8.ofNat (v / 256 ^ j) := by
      rw [writeLE, if_pos (by omega), Nat.add_sub_cancel_left]
    have hdiv : v / 256 ^ (j + 1) = v / 256 ^ j / 256 := by
      rw [Nat.pow_succ, Nat.div_div_eq_div_mul]
    rw [readLE, hbyte, show a + j + 1 = a + (j + 1) by omega, readLE_writeLE m a v n (by omega),
      toNat_ofNat_byte, hdiv, Nat.pow_succ', Nat.mod_mul]

theorem readLE_writeLE_self (m : Nat → UInt8) (a v n : Nat) :
    readLE (writeLE m a v n) a n = v % 256 ^ n := by
  simpa using readLE_writeLE m a v n (j := 0) (k := n) (by omega)

theorem readLE_writeLE_of_disjoint {m : Nat → UInt8} {a v k b n : Nat}
    (h : b + n ≤ a ∨ a + k ≤ b) : readLE (writeLE m a v k) b n = readLE m b n :=
  readLE_congr fun _ h1 h2 => writeLE_apply (by omega)

/-! ## Boundary tags -/

/-- A `struct boundary_tag`. The 63-bit field bounds `size`. -/
structure Tag where
  inuse : Bool
  size : Nat
  size_lt : size < 2 ^ 63
deriving DecidableEq

/-- `FENCE`, the prologue footer and the epilogue header: in use, size 0. -/
def fence : Tag := ⟨true, 0, by decide⟩

/-- The word a tag is stored as. -/
def Tag.toWord (t : Tag) : Nat := t.inuse.toNat + 2 * t.size

/-- The tag a stored word holds. -/
def Tag.ofWord (w : Nat) : Tag := ⟨w % 2 == 1, w / 2 % 2 ^ 63, Nat.mod_lt _ (by decide)⟩

theorem Tag.ofWord_toWord (t : Tag) : Tag.ofWord t.toWord = t := by
  obtain ⟨b, s, hs⟩ := t
  have hb := Bool.toNat_le b
  have h2 : (b.toNat + 2 * s) / 2 = s := by omega
  simp only [Tag.ofWord, Tag.toWord, h2, Nat.mod_eq_of_lt hs, Tag.mk.injEq, and_true]
  cases b <;> simp

theorem Tag.toWord_lt (t : Tag) : t.toWord < 256 ^ 8 := by
  have := t.size_lt
  have := Bool.toNat_le t.inuse
  simp only [Tag.toWord]
  omega

/-- The tag stored at `a`. -/
def readTag (m : Nat → UInt8) (a : Nat) : Tag := Tag.ofWord (readLE m a 8)

/-- Stores a tag at `a`. -/
def writeTag (m : Nat → UInt8) (a : Nat) (t : Tag) : Nat → UInt8 := writeLE m a t.toWord 8

@[simp] theorem readTag_writeTag_self (m : Nat → UInt8) (a : Nat) (t : Tag) :
    readTag (writeTag m a t) a = t := by
  rw [readTag, writeTag, readLE_writeLE_self, Nat.mod_eq_of_lt t.toWord_lt, Tag.ofWord_toWord]

theorem readTag_writeTag_of_ne {m : Nat → UInt8} {a b : Nat} {t : Tag}
    (h : b + 8 ≤ a ∨ a + 8 ≤ b) : readTag (writeTag m a t) b = readTag m b := by
  rw [readTag, writeTag, readLE_writeLE_of_disjoint h, readTag]

theorem writeTag_apply {m : Nat → UInt8} {a x : Nat} {t : Tag} (hx : x < a ∨ a + 8 ≤ x) :
    writeTag m a t x = m x :=
  writeLE_apply hx

/-! ## `memcpy` -/

/-- `memcpy(dst, src, n)`, one byte after another from the first. -/
def copyBytes (m : Nat → UInt8) (dst src : Nat) : Nat → Nat → UInt8
  | 0 => m
  | n + 1 => copyBytes (Function.update m dst (m src)) (dst + 1) (src + 1) n

theorem copyBytes_apply {m : Nat → UInt8} {dst src n x : Nat} (hx : x < dst ∨ dst + n ≤ x) :
    copyBytes m dst src n x = m x := by
  induction n generalizing m dst src with
  | zero => rfl
  | succ n ih => rw [copyBytes, ih (by omega), Function.update_noteq (by omega)]

/-- Copying down, or into a place the source does not reach, puts the source's `k`-th byte at
the destination's. -/
theorem copyBytes_self_add {m : Nat → UInt8} {dst src n k : Nat} (hk : k < n)
    (h : dst ≤ src ∨ src + n ≤ dst) : copyBytes m dst src n (dst + k) = m (src + k) := by
  induction n generalizing m dst src k with
  | zero => omega
  | succ n ih =>
    rw [copyBytes]
    cases k with
    | zero =>
      exact (copyBytes_apply (.inl (Nat.lt_add_one dst))).trans (Function.update_same _ _ _)
    | succ k =>
      rw [show dst + (k + 1) = dst + 1 + k by omega, ih (by omega) (by omega),
        Function.update_noteq (by omega), show src + 1 + k = src + (k + 1) by omega]

end Malloc
end SystemsLab
