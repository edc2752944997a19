import SystemsLab.Except
import SystemsLab.Malloc.Memory

/-!
# Malloc.Heap

The state of `mm.c` and its helpers that read blocks and the free lists: `prev_blk_footer`,
`next_blk`, `prev_blk`, `get_footer`, `set_header_and_footer`, `add_free_block` and `find_fit`.

A block at address `blk` is a header tag at `blk`, a payload from `blk + 8`, and a footer tag in
its last word; its size counts words and includes both tags. `free_blocks` is a Pintos list of
`struct free_block_list`, one per size class (4096, 2048, ..., 8 words, in that order), each a
list of the free blocks with its `list_size`. The model keeps each list as the addresses of the
blocks on it, front first: the `prev`/`next` words of a list element (the first 16 payload bytes
of a free block, and the list headers `mm_init` takes from the heap) are not kept in the bytes.
No allocated payload holds such a word, so what a program reads from its blocks is the same.
`list.h`, `memlib.h` and `config.h` are not in the repository: the lists behave as Pintos lists,
`mem_sbrk` is the oracle of `Malloc.Ops`, and `ALIGNMENT` is 16.

`Heap.Shaped` is what `mm_init` sets up and every later call keeps: the ten size classes, and a
`heap_listp` past the prologue word. `unlink_shaped` and `addFreeBlock_shaped` are its lemmas for the two
list operations.
-/

namespace SystemsLab
namespace Malloc

/-! ## Constants -/

/-- `WSIZE`, `sizeof(struct boundary_tag)`. -/
def wsize : Nat := 8
/-- `MIN_BLOCK_SIZE_WORDS`. -/
def minBlockSizeWords : Nat := 8
/-- `CHUNKSIZE`, in words. -/
def chunksize : Nat := 1024
/-- `MAX_BLOCK`, the `list_size` of the first size class. -/
def maxBlock : Nat := 4096
/-- `ALIGNMENT` of `config.h`. -/
def alignment : Nat := 16
/-- `sizeof(struct free_block_list)`: a `struct list` (two elements), a `list_elem` and
`list_size`. -/
def freeBlockListBytes : Nat := 56
/-- The `list_size`s of `mm_init`'s loop, `MAX_BLOCK` halved down to `MIN_BLOCK_SIZE_WORDS`. -/
def sizeClasses : List Nat := [4096, 2048, 1024, 512, 256, 128, 64, 32, 16, 8]

/-- `max` of `mm.c`. -/
protected def max (x y : Nat) : Nat := if x > y then x else y

/-- `align`: rounds up to `ALIGNMENT` in `size_t` arithmetic. -/
def align (size : Nat) : Nat :=
  let x := (size + alignment - 1) % 2 ^ 64
  x - x % alignment

/-- The 63-bit field a `size_t` gets through an `int` parameter (`set_header_and_footer` takes
its size as `int`): the low 32 bits, sign extended, as GCC converts. -/
def intBits (n : Nat) : Nat :=
  if n % 2 ^ 32 < 2 ^ 31 then n % 2 ^ 32 else n % 2 ^ 32 + (2 ^ 63 - 2 ^ 32)

theorem intBits_lt (n : Nat) : intBits n < 2 ^ 63 := by
  unfold intBits; split <;> omega

theorem intBits_of_lt {n : Nat} (h : n < 2 ^ 31) : intBits n = n := by
  unfold intBits; split <;> omega

/-! ## State -/

/-- A `struct free_block_list`: its `list_size` and the blocks on it, front first. -/
structure FreeList where
  listSize : Nat
  blocks : List Nat
deriving DecidableEq, Repr

/-- The allocator's state: the heap's bytes, the break of `memlib` (one past the last byte
`mem_sbrk` gave out), `heap_listp` (0 before `mm_init`) and `free_blocks`. -/
structure Heap where
  mem : Nat → UInt8
  brk : Nat
  heapListp : Nat
  lists : List FreeList

/-- How a call ends outside what the model keeps: `list_init` through the NULL of a failed
`mem_sbrk` in `mm_init`, `list_remove` of a block on no free list (the code unlinks it through
the stale words in its payload), `add_free_block` with no size class (the code links the block
into `free_blocks` itself), or `memcpy` between overlapping ranges, which C leaves undefined. -/
inductive Fault
  | nullDeref
  | strayUnlink
  | strayPush
  | memcpyOverlap
  deriving DecidableEq, Repr

/-- `memcpy(dst, src, n)`: the `n` bytes from `src` copied to `dst`, defined only when the two
ranges do not overlap. -/
def memcpy (mem : Nat → UInt8) (dst src n : Nat) : Except Fault (Nat → UInt8) :=
  if dst + n ≤ src ∨ src + n ≤ dst then .ok (copyBytes mem dst src n) else .error .memcpyOverlap

theorem memcpy_of_disjoint {mem : Nat → UInt8} {dst src n : Nat}
    (h : dst + n ≤ src ∨ src + n ≤ dst) : memcpy mem dst src n = .ok (copyBytes mem dst src n) :=
  if_pos h

theorem memcpy_of_overlap {mem : Nat → UInt8} {dst src n : Nat}
    (h : ¬(dst + n ≤ src ∨ src + n ≤ dst)) : memcpy mem dst src n = .error .memcpyOverlap :=
  if_neg h

theorem memcpy_post (mem : Nat → UInt8) (dst src n : Nat) :
    Post (fun _ => True) (· = .memcpyOverlap) (memcpy mem dst src n) := by
  unfold memcpy
  split
  · exact .ok trivial
  · exact .error rfl

/-- `prev_blk_footer`. -/
def prevBlkFooter (blk : Nat) : Nat := blk - wsize

/-- The state before `mm_init`, with the break at `lo`. -/
def Heap.empty (lo : Nat) (mem : Nat → UInt8) : Heap := ⟨mem, lo, 0, []⟩

/-- The `list_size` of each free list, front first. -/
def Heap.listSizes (h : Heap) : List Nat := h.lists.map FreeList.listSize

/-- What `mm_init` sets up and no later call changes: a free list for each size class, and the
`heap_listp` one word past a non-NULL `initial`, so that `mm_malloc` does not run `mm_init`
again. -/
def Heap.Shaped (h : Heap) : Prop := h.listSizes = sizeClasses ∧ wsize < h.heapListp

instance (h : Heap) : Decidable h.Shaped :=
  inferInstanceAs (Decidable (h.listSizes = sizeClasses ∧ wsize < h.heapListp))

theorem Heap.Shaped.lists_ne_nil {h : Heap} (hs : h.Shaped) : h.lists ≠ [] := fun hl => by
  simpa [listSizes, hl, sizeClasses] using hs.1

/-! ## Blocks -/

namespace Heap

variable (h : Heap)

/-- The tag at `a`. -/
def tag (a : Nat) : Tag := readTag h.mem a

/-- Stores the tag `t` at `a`. -/
def setTag (a : Nat) (t : Tag) : Heap := { h with mem := writeTag h.mem a t }

/-- `blk_size`. -/
def blkSize (blk : Nat) : Nat := (h.tag blk).size

/-- `blk_free`. -/
def blkFree (blk : Nat) : Bool := !(h.tag blk).inuse

/-- `next_blk`. -/
def nextBlk (blk : Nat) : Nat := blk + wsize * h.blkSize blk

/-- `prev_blk`, through the size in the footer before `blk`. -/
def prevBlk (blk : Nat) : Nat := blk - wsize * (h.tag (prevBlkFooter blk)).size

/-- `get_footer`. -/
def getFooter (blk : Nat) : Nat := blk + wsize * h.blkSize blk - wsize

/-- `set_header_and_footer`: the header first, then its copy at the footer its new size gives. -/
def setHeaderAndFooter (blk size : Nat) (inuse : Bool) : Heap :=
  let h := h.setTag blk ⟨inuse, intBits size, intBits_lt size⟩
  h.setTag (h.getFooter blk) (h.tag blk)

/-- `mark_block_used`. -/
def markBlockUsed (blk size : Nat) : Heap := h.setHeaderAndFooter blk size true

/-- `mark_block_free`. -/
def markBlockFree (blk size : Nat) : Heap := h.setHeaderAndFooter blk size false

@[simp] theorem setTag_brk (a : Nat) (t : Tag) : (h.setTag a t).brk = h.brk := rfl
@[simp] theorem setTag_heapListp (a : Nat) (t : Tag) : (h.setTag a t).heapListp = h.heapListp :=
  rfl
@[simp] theorem setTag_lists (a : Nat) (t : Tag) : (h.setTag a t).lists = h.lists := rfl
@[simp] theorem tag_setTag_self (a : Nat) (t : Tag) : (h.setTag a t).tag a = t :=
  readTag_writeTag_self _ _ _

theorem tag_setTag_of_ne {a b : Nat} {t : Tag} (hab : b + 8 ≤ a ∨ a + 8 ≤ b) :
    (h.setTag a t).tag b = h.tag b :=
  readTag_writeTag_of_ne hab

@[simp] theorem setHeaderAndFooter_brk (blk size : Nat) (inuse : Bool) :
    (h.setHeaderAndFooter blk size inuse).brk = h.brk := rfl
@[simp] theorem setHeaderAndFooter_heapListp (blk size : Nat) (inuse : Bool) :
    (h.setHeaderAndFooter blk size inuse).heapListp = h.heapListp := rfl
@[simp] theorem setHeaderAndFooter_lists (blk size : Nat) (inuse : Bool) :
    (h.setHeaderAndFooter blk size inuse).lists = h.lists := rfl

@[simp] theorem shaped_setTag (a : Nat) (t : Tag) : (h.setTag a t).Shaped ↔ h.Shaped := Iff.rfl
@[simp] theorem shaped_markBlockUsed (blk size : Nat) :
    (h.markBlockUsed blk size).Shaped ↔ h.Shaped := Iff.rfl
@[simp] theorem shaped_markBlockFree (blk size : Nat) :
    (h.markBlockFree blk size).Shaped ↔ h.Shaped := Iff.rfl
@[simp] theorem shaped_mk (mem : Nat → UInt8) (brk heapListp : Nat) (lists : List FreeList) :
    (Heap.mk mem brk heapListp lists).Shaped ↔
      lists.map FreeList.listSize = sizeClasses ∧ wsize < heapListp := Iff.rfl

theorem setHeaderAndFooter_spec {blk size : Nat} {inuse : Bool} (h2 : 2 ≤ size)
    (hs : size < 2 ^ 31) :
    let h' := h.setHeaderAndFooter blk size inuse
    h'.tag blk = ⟨inuse, size, by omega⟩ ∧
      h'.getFooter blk = blk + wsize * size - wsize ∧
      h'.tag (blk + wsize * size - wsize) = ⟨inuse, size, by omega⟩ ∧
      ∀ b, b + 8 ≤ blk ∨ blk + wsize * size ≤ b → h'.tag b = h.tag b := by
  have hsize : intBits size = size := intBits_of_lt hs
  have hhead : (h.setTag blk ⟨inuse, intBits size, intBits_lt size⟩).tag blk =
      ⟨inuse, size, by omega⟩ := by simp only [tag_setTag_self, hsize]
  have hfoot : (h.setTag blk ⟨inuse, intBits size, intBits_lt size⟩).getFooter blk =
      blk + wsize * size - wsize := by simp only [getFooter, blkSize, hhead]
  refine ⟨?_, ?_, ?_, fun b hb => ?_⟩
  · simp only [setHeaderAndFooter, hfoot, hhead]
    rw [tag_setTag_of_ne _ (by simp only [wsize]; omega), hhead]
  · simp only [setHeaderAndFooter, getFooter, blkSize, hfoot, hhead]
    rw [tag_setTag_of_ne _ (by simp only [wsize]; omega), hhead]
  · simp only [setHeaderAndFooter, hfoot, hhead, tag_setTag_self]
  · simp only [setHeaderAndFooter, hfoot, hhead]
    rw [tag_setTag_of_ne _ (by simp only [wsize] at hb ⊢; omega),
      tag_setTag_of_ne _ (by simp only [wsize] at hb ⊢; omega)]

theorem setHeaderAndFooter_mem {blk size : Nat} {inuse : Bool} (h2 : 2 ≤ size)
    (hs : size < 2 ^ 31) {x : Nat} (hx : x < blk ∨ blk + wsize * size ≤ x) :
    (h.setHeaderAndFooter blk size inuse).mem x = h.mem x := by
  have hhead : (h.setTag blk ⟨inuse, intBits size, intBits_lt size⟩).tag blk =
      ⟨inuse, size, by omega⟩ := by simp only [tag_setTag_self, intBits_of_lt hs]
  have hfoot : (h.setTag blk ⟨inuse, intBits size, intBits_lt size⟩).getFooter blk =
      blk + wsize * size - wsize := by simp only [getFooter, blkSize, hhead]
  simp only [setHeaderAndFooter, hfoot, hhead]
  simp only [setTag, wsize] at hx ⊢
  rw [writeTag_apply (by omega), writeTag_apply (by omega)]

theorem setHeaderAndFooter_mem_inside {blk size : Nat} {inuse : Bool} (h2 : 2 ≤ size)
    (hs : size < 2 ^ 31) {x : Nat} (h1 : blk + wsize ≤ x) (hx : x + wsize < blk + wsize * size) :
    (h.setHeaderAndFooter blk size inuse).mem x = h.mem x := by
  have hhead : (h.setTag blk ⟨inuse, intBits size, intBits_lt size⟩).tag blk =
      ⟨inuse, size, by omega⟩ := by simp only [tag_setTag_self, intBits_of_lt hs]
  have hfoot : (h.setTag blk ⟨inuse, intBits size, intBits_lt size⟩).getFooter blk =
      blk + wsize * size - wsize := by simp only [getFooter, blkSize, hhead]
  simp only [setHeaderAndFooter, hfoot, hhead]
  simp only [setTag, wsize] at h1 hx ⊢
  rw [writeTag_apply (by omega), writeTag_apply (by omega)]

theorem tag_setHeaderAndFooter_prev {blk size : Nat} {inuse : Bool} (hb : wsize ≤ blk) :
    (h.setHeaderAndFooter blk size inuse).tag (blk - wsize) = h.tag (blk - wsize) ∨
      ((h.setHeaderAndFooter blk size inuse).tag (blk - wsize)).size = 0 := by
  have hhead : (h.setTag blk ⟨inuse, intBits size, intBits_lt size⟩).tag blk =
      ⟨inuse, intBits size, intBits_lt size⟩ := tag_setTag_self _ _ _
  simp only [setHeaderAndFooter, getFooter, blkSize, hhead]
  by_cases h0 : intBits size = 0
  · right
    have hf : blk + wsize * intBits size - wsize = blk - wsize := by rw [h0, Nat.mul_zero, Nat.add_zero]
    rw [hf, tag_setTag_self]
    exact h0
  · left
    simp only [wsize] at hb ⊢
    rw [tag_setTag_of_ne _ (by omega), tag_setTag_of_ne _ (by omega)]

end Heap

/-! ## Free lists -/

/-- `list_remove(&blk->elem)`: the first list holding `blk` loses it. `none` when no list
holds it. -/
def listRemove (blk : Nat) : List FreeList → Option (List FreeList)
  | [] => none
  | l :: ls =>
    if blk ∈ l.blocks then some ({ l with blocks := l.blocks.erase blk } :: ls)
    else (listRemove blk ls).map (l :: ·)

/-- The loop of `add_free_block`: the block goes to the back of the first list whose
`list_size` is at most its size, and to no list when there is none. -/
def pushFirstFit (size blk : Nat) : List FreeList → List FreeList
  | [] => []
  | l :: ls =>
    if l.listSize ≤ size then { l with blocks := l.blocks ++ [blk] } :: ls
    else l :: pushFirstFit size blk ls

theorem listRemove_listSize {blk : Nat} : ∀ {ls ls' : List FreeList},
    listRemove blk ls = some ls' → ls'.map FreeList.listSize = ls.map FreeList.listSize
  | [], _, e => nomatch e
  | l :: ls, ls', e => by
    simp only [listRemove] at e
    split at e
    · cases e
      rfl
    · obtain ⟨ls'', e', rfl⟩ := Option.map_eq_some'.1 e
      simp [listRemove_listSize e']

@[simp] theorem pushFirstFit_listSize (size blk : Nat) : ∀ ls : List FreeList,
    (pushFirstFit size blk ls).map FreeList.listSize = ls.map FreeList.listSize
  | [] => rfl
  | l :: ls => by
    simp only [pushFirstFit]
    split <;> simp [pushFirstFit_listSize size blk ls]

theorem listRemove_isSome {blk : Nat} : ∀ {ls : List FreeList},
    blk ∈ (ls.map FreeList.blocks).flatten → ∃ ls', listRemove blk ls = some ls'
  | [], hb => nomatch hb
  | l :: ls, hb => by
    simp only [listRemove]
    split
    · exact ⟨_, rfl⟩
    · next hl =>
      simp only [List.map_cons, List.flatten_cons, List.mem_append, hl, false_or] at hb
      obtain ⟨ls', e⟩ := listRemove_isSome hb
      exact ⟨l :: ls', by rw [e]; rfl⟩

theorem listRemove_flatten {blk : Nat} : ∀ {ls ls' : List FreeList},
    listRemove blk ls = some ls' →
      (ls'.map FreeList.blocks).flatten = ((ls.map FreeList.blocks).flatten).erase blk
  | [], _, e => nomatch e
  | l :: ls, ls', e => by
    simp only [listRemove] at e
    split at e
    · next hl =>
      cases e
      simp only [List.map_cons, List.flatten_cons, List.erase_append_left _ hl]
    · next hl =>
      obtain ⟨ls'', e', rfl⟩ := Option.map_eq_some'.1 e
      simp only [List.map_cons, List.flatten_cons, List.erase_append_right _ hl,
        listRemove_flatten e']

theorem listRemove_entries {blk : Nat} : ∀ {ls ls' : List FreeList},
    listRemove blk ls = some ls' →
      ∀ l' ∈ ls', ∀ b ∈ l'.blocks, ∃ l ∈ ls, l.listSize = l'.listSize ∧ b ∈ l.blocks
  | [], _, e => nomatch e
  | l :: ls, ls', e => by
    simp only [listRemove] at e
    split at e
    · cases e
      rintro l' (_ | ⟨_, hl'⟩) b hb
      · exact ⟨l, List.mem_cons_self _ _, rfl, List.mem_of_mem_erase hb⟩
      · exact ⟨l', List.mem_cons_of_mem _ hl', rfl, hb⟩
    · obtain ⟨ls'', e', rfl⟩ := Option.map_eq_some'.1 e
      rintro l' (_ | ⟨_, hl'⟩) b hb
      · exact ⟨l, List.mem_cons_self _ _, rfl, hb⟩
      · obtain ⟨l'', hl'', hs, hb'⟩ := listRemove_entries e' l' hl' b hb
        exact ⟨l'', List.mem_cons_of_mem _ hl'', hs, hb'⟩

theorem pushFirstFit_flatten (size blk : Nat) : ∀ {ls : List FreeList},
    (∃ l ∈ ls, l.listSize ≤ size) →
      ((pushFirstFit size blk ls).map FreeList.blocks).flatten.Perm
        (blk :: (ls.map FreeList.blocks).flatten)
  | [], ⟨_, hl, _⟩ => nomatch hl
  | l :: ls, hex => by
    simp only [pushFirstFit]
    split
    · simp only [List.map_cons, List.flatten_cons, List.append_assoc, List.singleton_append]
      exact List.perm_middle
    · next hl =>
      have hex' : ∃ l ∈ ls, l.listSize ≤ size := by
        obtain ⟨l', hl', hs⟩ := hex
        rcases List.mem_cons.1 hl' with rfl | hl'
        · exact absurd hs hl
        · exact ⟨l', hl', hs⟩
      simp only [List.map_cons, List.flatten_cons]
      exact ((pushFirstFit_flatten size blk hex').append_left _).trans List.perm_middle

theorem pushFirstFit_entries (size blk : Nat) : ∀ {ls : List FreeList},
    (ls.map FreeList.listSize).Pairwise (· > ·) →
      ∀ l' ∈ pushFirstFit size blk ls, ∀ b ∈ l'.blocks,
        (∃ l ∈ ls, l.listSize = l'.listSize ∧ b ∈ l.blocks) ∨
          b = blk ∧ l'.listSize ≤ size ∧ ∀ l ∈ ls, l.listSize ≤ size → l.listSize ≤ l'.listSize
  | [], _ => nofun
  | l :: ls, hsort => by
    simp only [List.map_cons, List.pairwise_cons, List.mem_map, forall_exists_index, and_imp,
      forall_apply_eq_imp_iff₂] at hsort
    simp only [pushFirstFit]
    split
    · next hl =>
      rintro l' (_ | ⟨_, hl'⟩) b hb
      · rcases List.mem_append.1 hb with hb | hb
        · exact .inl ⟨l, List.mem_cons_self _ _, rfl, hb⟩
        · refine .inr ⟨List.mem_singleton.1 hb, hl, fun l'' hl'' _ => ?_⟩
          rcases List.mem_cons.1 hl'' with rfl | hl''
          · exact Nat.le_refl _
          · exact Nat.le_of_lt (hsort.1 l'' hl'')
      · exact .inl ⟨l', List.mem_cons_of_mem _ hl', rfl, hb⟩
    · next hl =>
      rintro l' (_ | ⟨_, hl'⟩) b hb
      · exact .inl ⟨l, List.mem_cons_self _ _, rfl, hb⟩
      · rcases pushFirstFit_entries size blk hsort.2 l' hl' b hb with
          ⟨l'', hl'', hs, hb'⟩ | ⟨rfl, hs, hmax⟩
        · exact .inl ⟨l'', List.mem_cons_of_mem _ hl'', hs, hb'⟩
        · refine .inr ⟨rfl, hs, fun l'' hl'' hle => ?_⟩
          rcases List.mem_cons.1 hl'' with rfl | hl''
          · exact absurd hle hl
          · exact hmax l'' hl'' hle

namespace Heap

variable (h : Heap)

/-- `list_remove` on the heap's lists. -/
def unlink (blk : Nat) : Except Fault Heap :=
  match listRemove blk h.lists with
  | some lists => .ok { h with lists }
  | none => .error .strayUnlink

/-- `add_free_block`. -/
def addFreeBlock (bp : Nat) : Except Fault Heap :=
  if h.lists = [] then .error .strayPush
  else .ok { h with lists := pushFirstFit (h.blkSize bp) bp h.lists }

theorem unlink_shaped {h : Heap} {blk : Nat} (hs : h.Shaped) :
    Post Shaped (· = Fault.strayUnlink) (h.unlink blk) := by
  unfold unlink
  split
  · next ls e => exact .ok ⟨(listRemove_listSize e).trans hs.1, hs.2⟩
  · exact .error rfl

theorem addFreeBlock_shaped {h : Heap} {bp : Nat} (hs : h.Shaped) :
    Post Shaped (· = Fault.strayUnlink) (h.addFreeBlock bp) := by
  rw [addFreeBlock, if_neg hs.lists_ne_nil]
  exact .ok ⟨(pushFirstFit_listSize _ _ _).trans hs.1, hs.2⟩

/-! ## `find_fit` -/

/-- Where the inner loop of `find_fit` stops: at a block, at `return NULL`, or at the list's
end, where the outer loop goes on. -/
inductive Scan
  | found (blk : Nat)
  | null
  | exhausted
  deriving DecidableEq, Repr

/-- The inner loop of `find_fit` over a list `xs`: `elem1` walks from the back (index `j1`),
`elem2` from the front (index `j2`); after `elem2` steps, the loop returns NULL when `elem1` is
`elem2` or just before it. -/
def meetScan (asize : Nat) (xs : List Nat) : (fuel j1 j2 : Nat) → Scan
  | 0, _, _ => .exhausted
  | fuel + 1, j1, j2 =>
    let block1 := xs.getD j1 0
    let block2 := xs.getD j2 0
    if asize ≤ h.blkSize block1 then .found block1
    else if asize ≤ h.blkSize block2 then .found block2
    else if j1 = j2 + 1 ∨ j1 + 1 = j2 + 1 then .null
    else if j1 = 0 then .exhausted
    else meetScan asize xs fuel (j1 - 1) (j2 + 1)

/-- The outer loop of `find_fit`. A list is searched when it is not empty and its `list_size`
is at least `asize`; the code's other disjunct, `list_prev(e) == list_end(&free_blocks)`,
compares the head of `free_blocks` with its tail and is never true. -/
def findFitIn (asize : Nat) : List FreeList → Option Nat
  | [] => none
  | l :: ls =>
    if l.blocks ≠ [] ∧ asize ≤ l.listSize then
      match h.meetScan asize l.blocks l.blocks.length (l.blocks.length - 1) 0 with
      | .found blk => some blk
      | .null => none
      | .exhausted => findFitIn asize ls
    else findFitIn asize ls

/-- `find_fit`. -/
def findFit (asize : Nat) : Option Nat := h.findFitIn asize h.lists

theorem getD_mem {xs : List Nat} {j : Nat} (hj : j < xs.length) : xs.getD j 0 ∈ xs := by
  simp only [List.getD_eq_getElem?_getD, List.getElem?_eq_getElem hj, Option.getD_some]
  exact List.getElem_mem hj

theorem meetScan_found {asize : Nat} {xs : List Nat} : ∀ {fuel j1 j2 b : Nat}, j2 ≤ j1 →
    j1 < xs.length → h.meetScan asize xs fuel j1 j2 = .found b → b ∈ xs ∧ asize ≤ h.blkSize b
  | 0, _, _, _, _, _, e => nomatch e
  | fuel + 1, j1, j2, b, h21, h1, e => by
    simp only [meetScan] at e
    split at e
    · cases e
      exact ⟨getD_mem h1, ‹_›⟩
    split at e
    · cases e
      exact ⟨getD_mem (by omega), ‹_›⟩
    split at e
    · cases e
    split at e
    · cases e
    · exact meetScan_found (by omega) (by omega) e

theorem meetScan_of_fit {asize : Nat} {xs : List Nat} {fuel j1 : Nat} (j2 : Nat)
    (hf : asize ≤ h.blkSize (xs.getD j1 0)) (hfuel : 0 < fuel) :
    h.meetScan asize xs fuel j1 j2 = .found (xs.getD j1 0) := by
  obtain ⟨n, rfl⟩ : ∃ n, fuel = n + 1 := ⟨fuel - 1, by omega⟩
  simp only [meetScan, if_pos hf]

theorem findFitIn_sound {asize b : Nat} : ∀ {ls : List FreeList},
    h.findFitIn asize ls = some b → asize ≤ h.blkSize b ∧ ∃ l ∈ ls, b ∈ l.blocks
  | [], e => nomatch e
  | l :: ls, e => by
    simp only [findFitIn] at e
    split at e
    · next hl =>
      split at e
      · next hf =>
        cases e
        have hne : 0 < l.blocks.length := List.length_pos.2 hl.1
        obtain ⟨hb, hs⟩ := h.meetScan_found (Nat.zero_le _) (by omega) hf
        exact ⟨hs, l, List.mem_cons_self _ _, hb⟩
      · cases e
      · obtain ⟨hs, l', hl', hb⟩ := findFitIn_sound e
        exact ⟨hs, l', List.mem_cons_of_mem _ hl', hb⟩
    · obtain ⟨hs, l', hl', hb⟩ := findFitIn_sound e
      exact ⟨hs, l', List.mem_cons_of_mem _ hl', hb⟩

theorem findFitIn_eq {asize : Nat} : ∀ {ls : List FreeList},
    (∀ l ∈ ls, ∀ b ∈ l.blocks, l.listSize ≤ h.blkSize b) →
    h.findFitIn asize ls =
      (ls.find? fun l => l.blocks ≠ [] ∧ asize ≤ l.listSize).map fun l => l.blocks.getLastD 0
  | [], _ => rfl
  | l :: ls, hcl => by
    simp only [findFitIn, List.find?_cons]
    by_cases hl : l.blocks ≠ [] ∧ asize ≤ l.listSize
    · have hpos := List.length_pos.2 hl.1
      have hlast : l.blocks.getD (l.blocks.length - 1) 0 = l.blocks.getLastD 0 := by
        simp [List.getLastD_eq_getLast?, List.getLast?_eq_getElem?, List.getD_eq_getElem?_getD]
      have hscan := h.meetScan_of_fit 0 (Nat.le_trans hl.2 (hcl l (List.mem_cons_self _ _) _
        (getD_mem (Nat.sub_lt hpos Nat.one_pos)))) hpos
      simp only [if_pos hl, hscan, decide_eq_true hl, Option.map_some', hlast]
    · rw [if_neg hl, decide_eq_false hl]
      exact findFitIn_eq fun l' hl' => hcl l' (List.mem_cons_of_mem _ hl')

end Heap

end Malloc
end SystemsLab
