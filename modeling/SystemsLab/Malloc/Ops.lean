import SystemsLab.Malloc.Heap

/-!
# Malloc.Ops

The entry points of `mm.c` (`mm_init`, `mm_malloc`, `mm_free`, `mm_realloc`) and the helpers that
change the heap (`extend_heap`, `coalesce`, `place`), as functions of `Malloc.Heap`. Each keeps
the order of the code's reads and writes: a size read after a write reads the new tag.

`mem_sbrk` is an oracle: each call succeeds or fails as the caller's `ok` says. On success it
returns the old break and moves the break up by its argument; on failure it returns NULL, which
is what the code tests for (`memlib.h` is not in the repository). Apart from `mm_init`, a call
makes at most one `mem_sbrk` call, so one `ok` per call covers every outcome. `size_t`
arithmetic that can wrap is taken modulo `2^64`; a size passed to `mark_block_used` or
`mark_block_free` goes through their `int` parameter (`intBits`).

Beside each function, what it does to the shape of the heap (`Heap.Shaped`):

* `initLists_spec`, `mmInit_shaped`: `mm_init` that returns 0 has made the ten size classes and
  set `heap_listp`;
* `coalesce_shaped`, `extendHeap_shaped`, `place_shaped`, `mmMalloc_shaped`, `mmFree_shaped`,
  `mmRealloc_shaped`: from a shaped heap every call ends in a shaped heap, or faults in
  `list_remove` or in an overlapping `memcpy`.
-/

namespace SystemsLab
namespace Malloc

namespace Heap

/-- `mem_sbrk(incr)`: the old break, or NULL when the call fails. -/
def memSbrk (h : Heap) (incr : Nat) (ok : Bool) : Heap × Nat :=
  if ok then ({ h with brk := h.brk + incr }, h.brk) else (h, 0)

@[simp] theorem memSbrk_true (h : Heap) (incr : Nat) :
    h.memSbrk incr true = ({ h with brk := h.brk + incr }, h.brk) := rfl
@[simp] theorem memSbrk_false (h : Heap) (incr : Nat) : h.memSbrk incr false = (h, 0) := rfl

/-- The loop of `mm_init`: for each size class a `struct free_block_list` from `mem_sbrk`,
pushed to the back of `free_blocks`. The `k`-th `mem_sbrk` call of `mm_init` succeeds when
`ok k`; `list_init` through a failed one's NULL is a fault. -/
def initLists (ok : Nat → Bool) : Nat → List Nat → Heap → Except Fault Heap
  | _, [], hp => .ok hp
  | k, i :: is, hp =>
    let (hp, b) := hp.memSbrk freeBlockListBytes (ok k)
    if b = 0 then .error .nullDeref
    else initLists ok (k + 1) is { hp with lists := hp.lists ++ [⟨i, []⟩] }

/-- The loop of `mm_init` takes `56` bytes for each size class and puts an empty list for it at
the back, or faults at the first `mem_sbrk` that fails. -/
theorem initLists_spec {ok : Nat → Bool} : ∀ {k : Nat} {cs : List Nat} {hp : Heap},
    Post (· = { hp with brk := hp.brk + freeBlockListBytes * cs.length,
                        lists := hp.lists ++ cs.map fun i => ⟨i, []⟩ })
      (· = Fault.nullDeref) (initLists ok k cs hp)
  | _, [], hp => .ok (by simp)
  | k, i :: cs, hp => by
    simp only [initLists]
    cases ok k <;> simp only [memSbrk_true, memSbrk_false]
    · exact .error rfl
    · split
      · exact .error rfl
      · refine initLists_spec.imp (fun _ e => e.trans ?_) fun _ => id
        simp only [List.length_cons, List.map_cons, List.append_assoc, List.singleton_append]
        congr 1
        rw [Nat.mul_succ]
        omega

variable (h : Heap)

/-- `coalesce`: merges the free block `bp` with a free neighbour on either side and puts the
result on its list; the merged block. -/
def coalesce (bp : Nat) : Except Fault (Heap × Nat) :=
  let prevAlloc := (h.tag (prevBlkFooter bp)).inuse
  let nextAlloc := !h.blkFree (h.nextBlk bp)
  let size := h.blkSize bp
  if prevAlloc && nextAlloc then do
    let h ← h.addFreeBlock bp
    pure (h, bp)
  else if prevAlloc && !nextAlloc then do
    let next := h.nextBlk bp
    let h ← h.unlink next
    let h ← (h.markBlockFree bp (size + h.blkSize next)).addFreeBlock bp
    pure (h, bp)
  else if !prevAlloc && nextAlloc then do
    let prev := h.prevBlk bp
    let h ← h.unlink prev
    let h ← (h.markBlockFree prev (size + h.blkSize prev)).addFreeBlock prev
    pure (h, prev)
  else do
    let prev := h.prevBlk bp
    let next := h.nextBlk bp
    let h ← h.unlink prev
    let h ← h.unlink next
    let h ← (h.markBlockFree prev (size + h.blkSize prev + h.blkSize next)).addFreeBlock prev
    pure (h, prev)

theorem coalesce_shaped {h : Heap} {bp : Nat} (hs : h.Shaped) :
    Post (fun r : Heap × Nat => r.1.Shaped) (· = Fault.strayUnlink) (h.coalesce bp) := by
  unfold coalesce
  refine Post.ite (fun _ => Post.bind (addFreeBlock_shaped hs) fun _ h1 => .ok h1) fun _ => ?_
  refine Post.ite (fun _ => ?_) fun _ => Post.ite (fun _ => ?_) fun _ => ?_
  · exact Post.bind (unlink_shaped hs) fun _ hs1 =>
      Post.bind (addFreeBlock_shaped (by simpa)) fun _ h1 => .ok h1
  · exact Post.bind (unlink_shaped hs) fun _ hs1 =>
      Post.bind (addFreeBlock_shaped (by simpa)) fun _ h1 => .ok h1
  · exact Post.bind (unlink_shaped hs) fun _ hs1 => Post.bind (unlink_shaped hs1) fun _ hs2 =>
      Post.bind (addFreeBlock_shaped (by simpa)) fun _ h1 => .ok h1

theorem coalesce_result {h h' : Heap} {bp b : Nat} (e : h.coalesce bp = .ok (h', b)) :
    b = bp ∨ (h.tag (prevBlkFooter bp)).inuse = false ∧ b = h.prevBlk bp := by
  dsimp only [coalesce] at e
  split at e
  · obtain ⟨_, -, e⟩ := bind_eq_ok.1 e
    cases e
    exact .inl rfl
  split at e
  · obtain ⟨_, -, e⟩ := bind_eq_ok.1 e
    obtain ⟨_, -, e⟩ := bind_eq_ok.1 e
    cases e
    exact .inl rfl
  split at e
  · next hc =>
    obtain ⟨_, -, e⟩ := bind_eq_ok.1 e
    obtain ⟨_, -, e⟩ := bind_eq_ok.1 e
    cases e
    simp only [Bool.and_eq_true, Bool.not_eq_true'] at hc
    exact .inr ⟨hc.1, rfl⟩
  · next hc1 hc2 hc3 =>
    obtain ⟨_, -, e⟩ := bind_eq_ok.1 e
    obtain ⟨_, -, e⟩ := bind_eq_ok.1 e
    obtain ⟨_, -, e⟩ := bind_eq_ok.1 e
    cases e
    refine .inr ⟨?_, rfl⟩
    cases hp : (h.tag (prevBlkFooter bp)).inuse <;> simp_all

/-- `extend_heap`: a free block of `words` words from the old epilogue, a new epilogue after
it, and the block coalesced; NULL when `mem_sbrk` fails. -/
def extendHeap (words : Nat) (ok : Bool) : Except Fault (Heap × Nat) :=
  let (h, bp) := h.memSbrk (words * wsize % 2 ^ 64) ok
  if bp = 0 then .ok (h, 0)
  else
    let blk := bp - wsize
    let h := h.markBlockFree blk words
    (h.setTag (h.nextBlk blk) fence).coalesce blk

theorem extendHeap_false (words : Nat) : h.extendHeap words false = .ok (h, 0) := rfl

theorem extendHeap_shaped {h : Heap} {words : Nat} {ok : Bool} (hs : h.Shaped) :
    Post (fun r : Heap × Nat => r.1.Shaped) (· = Fault.strayUnlink) (h.extendHeap words ok) := by
  unfold extendHeap
  cases ok <;> simp only [memSbrk_true, memSbrk_false]
  · exact .ok hs
  · split
    · exact .ok (by simpa using hs)
    · exact coalesce_shaped (by simpa using hs)

/-- `place`: `asize` words at the start of the free block `bp` become allocated, and the rest
a free block of its own when it is at least `MIN_BLOCK_SIZE_WORDS`. -/
def place (bp asize : Nat) : Except Fault Heap :=
  let csize := h.blkSize bp
  let rest := (csize + 2 ^ 64 - asize) % 2 ^ 64
  if minBlockSizeWords ≤ rest then do
    let h ← (h.markBlockUsed bp asize).unlink bp
    let t := h.nextBlk bp
    (h.markBlockFree t rest).addFreeBlock t
  else (h.markBlockUsed bp csize).unlink bp

theorem place_shaped {h : Heap} {bp asize : Nat} (hs : h.Shaped) :
    Post Shaped (· = Fault.strayUnlink) (h.place bp asize) := by
  dsimp only [place]
  split
  · exact Post.bind (unlink_shaped (by simpa)) fun _ hs1 => addFreeBlock_shaped (by simpa)
  · exact unlink_shaped (by simpa)

/-- `mm_init`: the size classes, the two fences (`initial[0]` is written twice and `initial[1]`
is left to `extend_heap`), and a first free chunk. The `mem_sbrk` calls are numbered from 0. -/
def mmInit (ok : Nat → Bool) : Except Fault (Heap × Int) := do
  let h ← initLists ok 0 sizeClasses { h with lists := [] }
  let (h, initial) := h.memSbrk (2 * wsize) (ok sizeClasses.length)
  if initial = 0 then pure (h, -1)
  else
    let h := h.setTag initial fence
    let h := { h with heapListp := initial + wsize }
    let h := h.setTag initial fence
    let (h, bp) ← h.extendHeap chunksize (ok (sizeClasses.length + 1))
    pure (h, if bp = 0 then -1 else 0)

/-- `mm_init` returns 0 only with the size classes set up and `heap_listp` set; it faults only
through a failed `mem_sbrk` for a list header or in `list_remove`. -/
theorem mmInit_shaped {ok : Nat → Bool} :
    Post (fun r : Heap × Int => r.2 = 0 → r.1.Shaped)
      (fun e => e = Fault.nullDeref ∨ e = Fault.strayUnlink) (h.mmInit ok) := by
  unfold mmInit
  refine Post.bind (initLists_spec.imp (fun _ => id) fun _ => .inl) fun h1 e1 => ?_
  subst e1
  cases ok sizeClasses.length <;> simp only [memSbrk_true, memSbrk_false]
  · exact .ok (by simp)
  refine Post.ite (fun _ => .ok (by simp)) fun h0 => ?_
  refine Post.bind ((extendHeap_shaped ?_).imp (fun _ => id) fun _ => .inr) fun r hr => .ok fun _ => hr
  simp only [shaped_setTag, shaped_mk, List.nil_append, List.map_map]
  exact ⟨rfl, by simp only [wsize] at h0 ⊢; omega⟩

/-- `mm_malloc`: the payload of a block with room for `size` bytes, or NULL. Before `mm_init` it
runs `mm_init` first, whose `mem_sbrk` calls then all go as `ok` says. -/
def mmMalloc (size : Nat) (ok : Bool) : Except Fault (Heap × Nat) :=
  if size = 0 then .ok (h, 0)
  else do
    let h ← (if h.heapListp = 0 then Prod.fst <$> h.mmInit (fun _ => ok) else pure h)
    let bsize := align ((size + 2 * wsize) % 2 ^ 64)
    if bsize < size then pure (h, 0)
    else
      let awords := Malloc.max minBlockSizeWords (bsize / wsize)
      match h.findFit awords with
      | some bp => do
        let h ← h.place bp awords
        pure (h, bp + wsize)
      | none => do
        let (h, bp) ← h.extendHeap (Malloc.max awords chunksize) ok
        if bp = 0 then pure (h, 0)
        else do
          let h ← h.place bp awords
          pure (h, bp + wsize)

theorem mmMalloc_shaped {h : Heap} {size : Nat} {ok : Bool} (hs : h.Shaped) :
    Post (fun r : Heap × Nat => r.1.Shaped) (· = Fault.strayUnlink) (h.mmMalloc size ok) := by
  unfold mmMalloc
  refine Post.ite (fun _ => .ok hs) fun _ => ?_
  refine Post.bind (Post.ite (fun h0 => absurd h0 (by have := hs.2; omega)) fun _ => .ok hs)
    fun h1 hs1 => ?_
  refine Post.ite (fun _ => .ok hs1) fun _ => ?_
  dsimp only
  split
  · exact Post.bind (place_shaped hs1) fun _ h2 => .ok h2
  · exact Post.bind (extendHeap_shaped hs1) fun ⟨_, _⟩ hs2 =>
      Post.ite (fun _ => .ok hs2) fun _ => Post.bind (place_shaped hs2) fun _ h3 => .ok h3

/-- `mm_free`. -/
def mmFree (bp : Nat) : Except Fault Heap :=
  if bp = 0 then .ok h
  else
    let blk := bp - wsize
    Prod.fst <$> (h.markBlockFree blk (h.blkSize blk)).coalesce blk

theorem mmFree_shaped {h : Heap} {bp : Nat} (hs : h.Shaped) :
    Post Shaped (· = Fault.strayUnlink) (h.mmFree bp) := by
  unfold mmFree
  split
  · exact .ok hs
  · exact Post.map (coalesce_shaped (by simpa)) fun _ h1 => h1

/-- `mm_realloc`. The block of `ptr` takes in a free right neighbour and is returned in place
if it then has `size` words (a count of words compared with a count of bytes, as in the code);
else it takes in a free left neighbour and the payload is copied down if that is enough; else
`mm_malloc`, copy and `mm_free`. A NULL from `mm_malloc` is returned as it is. -/
def mmRealloc (ptr size : Nat) (ok : Bool) : Except Fault (Heap × Nat) :=
  if size = 0 then do
    let h ← h.mmFree ptr
    pure (h, 0)
  else if ptr = 0 then h.mmMalloc size ok
  else do
    let oldblk := ptr - wsize
    let prevAlloc := (h.tag (prevBlkFooter oldblk)).inuse
    let nextAlloc := !h.blkFree (h.nextBlk oldblk)
    let h ← (if !nextAlloc then do
        let h ← h.unlink (h.nextBlk oldblk)
        pure (h.markBlockUsed oldblk (h.blkSize oldblk + h.blkSize (h.nextBlk oldblk)))
      else pure h)
    if size ≤ h.blkSize oldblk then pure (h, oldblk + wsize)
    else do
      let (h, oldblk) ← (if !prevAlloc then do
          let left := h.prevBlk oldblk
          let h ← h.unlink left
          pure (h.markBlockUsed left (h.blkSize oldblk + h.blkSize left), left)
        else pure (h, oldblk))
      if size ≤ h.blkSize oldblk then do
        let bytesize := h.blkSize oldblk * wsize % 2 ^ 64
        let bytesize := if size < bytesize then size else bytesize
        let mem ← memcpy h.mem (oldblk + wsize) ptr bytesize
        pure ({ h with mem := mem }, oldblk + wsize)
      else do
        let (h, newptr) ← h.mmMalloc size ok
        if newptr = 0 then pure (h, 0)
        else do
          let bytesize := h.blkSize (ptr - wsize) * wsize % 2 ^ 64
          let bytesize := if size < bytesize then size else bytesize
          let mem ← memcpy h.mem newptr ptr bytesize
          let h ← ({ h with mem := mem } : Heap).mmFree (oldblk + wsize)
          pure (h, newptr)

theorem mmRealloc_shaped {h : Heap} {ptr size : Nat} {ok : Bool} (hs : h.Shaped) :
    Post (fun r : Heap × Nat => r.1.Shaped) (fun f => f = .strayUnlink ∨ f = .memcpyOverlap)
      (h.mmRealloc ptr size ok) := by
  have lift : ∀ {α : Type} {P : α → Prop} {x : Except Fault α}, Post P (· = .strayUnlink) x →
      Post P (fun f => f = .strayUnlink ∨ f = .memcpyOverlap) x :=
    fun hx => hx.imp (fun _ => id) fun _ => .inl
  unfold mmRealloc
  refine Post.ite (fun _ => Post.bind (lift (mmFree_shaped hs)) fun _ h1 => .ok h1) fun _ => ?_
  refine Post.ite (fun _ => lift (mmMalloc_shaped hs)) fun _ => ?_
  refine Post.bind (P := Shaped) ?_ fun h1 hs1 => ?_
  · refine Post.ite (fun _ => ?_) fun _ => .ok hs
    exact Post.bind (lift (unlink_shaped hs)) fun _ h2 => .ok (by simpa)
  refine Post.ite (fun _ => .ok hs1) fun _ => ?_
  refine Post.bind (P := fun r : Heap × Nat => r.1.Shaped) ?_ fun r hs2 => ?_
  · refine Post.ite (fun _ => ?_) fun _ => .ok hs1
    exact Post.bind (lift (unlink_shaped hs1)) fun _ h2 => .ok (by simpa)
  refine Post.ite (fun _ => Post.bind ((memcpy_post _ _ _ _).imp (fun _ => id) fun _ => .inr)
    fun _ _ => .ok (by simpa using hs2)) fun _ => ?_
  refine Post.bind (lift (mmMalloc_shaped hs2)) fun r' hs3 => ?_
  refine Post.ite (fun _ => .ok hs3) fun _ => ?_
  refine Post.bind ((memcpy_post _ _ _ _).imp (fun _ => id) fun _ => .inr) fun _ _ => ?_
  exact Post.bind (lift (mmFree_shaped (by simpa using hs3))) fun _ h2 => .ok h2

end Heap

end Malloc
end SystemsLab
