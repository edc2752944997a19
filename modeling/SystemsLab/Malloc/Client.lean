import SystemsLab.Malloc.Ops

/-!
# Malloc.Client

A program using the allocator after `mm_init`: the calls it makes, and the pointers it holds
with the bytes it last asked for each. A pointer it passes is NULL or one it holds, and a size is
a `size_t`. The program's calls from a state `mm_init` returned 0 in make `Reachable`.

The invariant the allocator's design rests on, as `Client.Inv`:

* `Heap.Inv`: from the prologue fence the blocks tile the heap up to the epilogue fence, header
  and footer of each agree, each has at least `MIN_BLOCK_SIZE_WORDS` words, no two neighbours are
  free, and the free lists hold exactly the free blocks, each once, on the list with the largest
  `list_size` not above its size;
* `LiveIn`: every pointer the program holds is the payload of its own allocated block, with room
  for the bytes last asked for.

What every run keeps, from the lemmas of `Malloc.Ops`: `Reachable.shaped`, the size classes and
`heap_listp` of `mm_init`.

What the invariant gives: `Heap.blocksFrom_some` and `Heap.Inv.prev_epilogue` (where the walk of
the blocks ends, and what lies before the epilogue), and from them `Heap.mmMalloc_eq_null`: a
NULL from `mm_malloc` leaves the heap as it was.
-/

namespace SystemsLab
namespace Malloc

/-! ## Calls -/

/-- The allocator and the pointers the program holds, each with the bytes last asked for. -/
structure Client where
  heap : Heap
  live : List (Nat × Nat)

/-- A call of the program, with the outcome of the `mem_sbrk` call it may make. -/
inductive Call
  | malloc (n : Nat) (ok : Bool)
  | free (p : Nat)
  | realloc (p n : Nat) (ok : Bool)

/-- The pointers held after `mm_realloc(p, n)` returned `q`: `q` replaces `p` when it is not
NULL; a NULL for `n = 0` means `p` was freed, and any other NULL leaves `p` held. -/
def afterRealloc (live : List (Nat × Nat)) (p n q : Nat) : List (Nat × Nat) :=
  if q ≠ 0 then live.filter (·.1 != p) ++ [(q, n)]
  else if n = 0 then live.filter (·.1 != p)
  else live

namespace Client

/-- A pointer the program may pass: NULL or one it holds. -/
def Holds (c : Client) (p : Nat) : Prop := p = 0 ∨ p ∈ c.live.map Prod.fst

instance (c : Client) (p : Nat) : Decidable (c.Holds p) :=
  inferInstanceAs (Decidable (p = 0 ∨ p ∈ c.live.map Prod.fst))

/-- One call; `none` when the program may not make it. -/
def step (c : Client) : Call → Option (Except Fault Client)
  | .malloc n ok =>
    if n < 2 ^ 64 then
      some ((fun (h, q) => ⟨h, if q = 0 then c.live else c.live ++ [(q, n)]⟩) <$>
        c.heap.mmMalloc n ok)
    else none
  | .free p =>
    if c.Holds p then some ((fun h => ⟨h, c.live.filter (·.1 != p)⟩) <$> c.heap.mmFree p)
    else none
  | .realloc p n ok =>
    if c.Holds p ∧ n < 2 ^ 64 then
      some ((fun (h, q) => ⟨h, afterRealloc c.live p n q⟩) <$> c.heap.mmRealloc p n ok)
    else none

/-- The calls in order, up to the first fault. -/
def run (c : Client) : List Call → Option (Except Fault Client)
  | [] => some (.ok c)
  | call :: calls =>
    match c.step call with
    | some (.ok c') => c'.run calls
    | r => r

end Client

/-- The states a program reaches from a heap `mm_init` set up. -/
inductive Reachable : Client → Prop
  | init {lo : Nat} {mem : Nat → UInt8} {ok : Nat → Bool} {h : Heap} :
    (Heap.empty lo mem).mmInit ok = .ok (h, 0) → Reachable ⟨h, []⟩
  | step {c c' : Client} (call : Call) : Reachable c → c.step call = some (.ok c') → Reachable c'

theorem run_reachable {c : Client} (hc : Reachable c) :
    ∀ {calls : List Call} {c' : Client}, c.run calls = some (.ok c') → Reachable c'
  | [], _, h => by cases h; exact hc
  | call :: calls, c', h => by
    simp only [Client.run] at h
    split at h
    · exact run_reachable (hc.step call ‹_›) h
    · rename_i hr
      exact absurd h (hr c')

/-! ## What every run keeps -/

theorem Client.step_shaped {c : Client} (hs : c.heap.Shaped) {call : Call}
    {r : Except Fault Client} (e : c.step call = some r) :
    Post (fun c' : Client => c'.heap.Shaped) (fun f => f = .strayUnlink ∨ f = .memcpyOverlap) r := by
  have hE : ∀ f : Fault, f = .strayUnlink → f = .strayUnlink ∨ f = .memcpyOverlap := fun _ => .inl
  cases call <;> simp only [step] at e <;> split at e <;> cases e
  · exact Post.map ((Heap.mmMalloc_shaped hs).imp (fun _ => id) hE) fun _ => id
  · exact Post.map ((Heap.mmFree_shaped hs).imp (fun _ => id) hE) fun _ => id
  · exact Post.map (Heap.mmRealloc_shaped hs) fun _ => id

/-- Every state a program reaches keeps the size classes `mm_init` made and its `heap_listp`. -/
theorem Reachable.shaped {c : Client} (hc : Reachable c) : c.heap.Shaped := by
  induction hc with
  | init e => exact (Heap.mmInit_shaped _).of_eq_ok e rfl
  | step _ _ e ih => exact (Client.step_shaped ih e).of_ok

/-! ## The invariant -/

namespace Heap

variable (h : Heap)

/-- The blocks from `blk` on, up to the first tag of size 0, and where that tag is; `none` when
the walk takes more than `fuel` steps. -/
def blocksFrom : (fuel blk : Nat) → Option (List Nat × Nat)
  | 0, _ => none
  | fuel + 1, blk =>
    if h.blkSize blk = 0 then some ([], blk)
    else (blocksFrom fuel (h.nextBlk blk)).map fun (bs, e) => (blk :: bs, e)

/-- The blocks after the prologue. A heap of `k` words has at most `k` of them. -/
def blocks : Option (List Nat × Nat) :=
  h.blocksFrom ((h.brk - h.heapListp) / wsize + 1) h.heapListp

/-- A walk ends at or after where it starts, passes blocks from there on, and ends just past its
last block, or where it started when it passes none. -/
theorem blocksFrom_some : ∀ {fuel blk : Nat} {bs : List Nat} {e : Nat},
    h.blocksFrom fuel blk = some (bs, e) →
      blk ≤ e ∧ (∀ b ∈ bs, blk ≤ b) ∧
        (bs = [] ∧ e = blk ∨ ∃ L ∈ bs, h.nextBlk L = e ∧ 0 < h.blkSize L)
  | 0, _, _, _, w => nomatch w
  | fuel + 1, blk, bs, e, w => by
    simp only [blocksFrom] at w
    split at w
    · cases w
      exact ⟨Nat.le_refl _, nofun, .inl ⟨rfl, rfl⟩⟩
    · next h0 =>
      obtain ⟨⟨bs', e'⟩, w', hw⟩ := Option.map_eq_some'.1 w
      cases hw
      obtain ⟨hle, hbs, hlast⟩ := blocksFrom_some w'
      have hnext : blk ≤ h.nextBlk blk := Nat.le_add_right _ _
      refine ⟨Nat.le_trans hnext hle, fun b hb => ?_, .inr ?_⟩
      · rcases List.mem_cons.1 hb with rfl | hb
        · exact Nat.le_refl _
        · exact Nat.le_trans hnext (hbs b hb)
      · rcases hlast with ⟨rfl, rfl⟩ | ⟨L, hL, hLe, hLs⟩
        · exact ⟨blk, List.mem_cons_self _ _, rfl, Nat.pos_of_ne_zero h0⟩
        · exact ⟨L, List.mem_cons_of_mem _ hL, hLe, hLs⟩

/-- The invariant of the heap, whose blocks are `bs`. -/
structure Inv (bs : List Nat) : Prop where
  prologue : h.tag (prevBlkFooter h.heapListp) = fence
  tiled : h.blocks = some (bs, h.brk - wsize)
  epilogue : h.tag (h.brk - wsize) = fence
  footer : ∀ b ∈ bs, h.tag (h.getFooter b) = h.tag b
  min_size : ∀ b ∈ bs, minBlockSizeWords ≤ h.blkSize b
  no_free_pair : ∀ b ∈ bs, h.blkFree b = true → h.blkFree (h.nextBlk b) = false
  listed : (h.lists.map FreeList.blocks).flatten.Perm (bs.filter h.blkFree)
  size_class : ∀ l ∈ h.lists, ∀ b ∈ l.blocks, l.listSize ≤ h.blkSize b ∧
    ∀ l' ∈ h.lists, l'.listSize ≤ h.blkSize b → l'.listSize ≤ l.listSize

instance (bs : List Nat) : Decidable (h.Inv bs) :=
  decidable_of_iff (h.tag (prevBlkFooter h.heapListp) = fence ∧
      h.blocks = some (bs, h.brk - wsize) ∧ h.tag (h.brk - wsize) = fence ∧
      (∀ b ∈ bs, h.tag (h.getFooter b) = h.tag b) ∧ (∀ b ∈ bs, minBlockSizeWords ≤ h.blkSize b) ∧
      (∀ b ∈ bs, h.blkFree b = true → h.blkFree (h.nextBlk b) = false) ∧
      (h.lists.map FreeList.blocks).flatten.Perm (bs.filter h.blkFree) ∧
      ∀ l ∈ h.lists, ∀ b ∈ l.blocks, l.listSize ≤ h.blkSize b ∧
        ∀ l' ∈ h.lists, l'.listSize ≤ h.blkSize b → l'.listSize ≤ l.listSize)
    ⟨fun ⟨a, b, c, d, e, f, g, i⟩ => ⟨a, b, c, d, e, f, g, i⟩,
      fun hi => ⟨hi.1, hi.2, hi.3, hi.4, hi.5, hi.6, hi.7, hi.8⟩⟩

namespace Inv

variable {h : Heap} {bs : List Nat}

theorem le_of_mem (hi : h.Inv bs) {b : Nat} (hb : b ∈ bs) : h.heapListp ≤ b :=
  (h.blocksFrom_some hi.tiled).2.1 b hb

theorem heapListp_le (hi : h.Inv bs) : h.heapListp ≤ h.brk - wsize :=
  (h.blocksFrom_some hi.tiled).1

/-- The word before the epilogue is the prologue fence or the footer of the last block, so the
block it leads back to, when it is free, is a block. -/
theorem prev_epilogue (hi : h.Inv bs) :
    (h.tag (prevBlkFooter (h.brk - wsize))).inuse = true ∨ h.prevBlk (h.brk - wsize) ∈ bs := by
  rcases (h.blocksFrom_some hi.tiled).2.2 with ⟨-, he⟩ | ⟨L, hL, hLe, hLs⟩
  · left
    rw [he, hi.prologue]
    rfl
  · right
    have hfoot : prevBlkFooter (h.brk - wsize) = h.getFooter L := by
      simp only [prevBlkFooter, getFooter, ← hLe, nextBlk]
    have hprev : h.prevBlk (h.brk - wsize) = L := by
      rw [prevBlk, hfoot, hi.footer L hL, ← hLe]
      simp only [nextBlk, blkSize, Nat.add_sub_cancel]
    exact hprev ▸ hL

end Inv

end Heap

/-- The pointers the program holds are the payloads of distinct allocated blocks among `bs`,
each with room for the bytes last asked for. -/
def LiveIn (h : Heap) (bs : List Nat) (live : List (Nat × Nat)) : Prop :=
  (live.map Prod.fst).Nodup ∧
    ∀ p n, (p, n) ∈ live → wsize ≤ p ∧ p - wsize ∈ bs ∧ (h.tag (p - wsize)).inuse = true ∧
      n + 2 * wsize ≤ wsize * h.blkSize (p - wsize)

theorem liveIn_iff {h : Heap} {bs : List Nat} {live : List (Nat × Nat)} :
    LiveIn h bs live ↔ (live.map Prod.fst).Nodup ∧ ∀ e ∈ live, wsize ≤ e.1 ∧ e.1 - wsize ∈ bs ∧
      (h.tag (e.1 - wsize)).inuse = true ∧ e.2 + 2 * wsize ≤ wsize * h.blkSize (e.1 - wsize) :=
  and_congr_right' ⟨fun hl e he => hl e.1 e.2 he, fun hl p n hp => hl (p, n) hp⟩

instance (h : Heap) (bs : List Nat) (live : List (Nat × Nat)) : Decidable (LiveIn h bs live) :=
  decidable_of_iff _ liveIn_iff.symm

/-- The invariant of the allocator and the program. -/
def Client.Inv (c : Client) : Prop := ∃ bs, c.heap.Inv bs ∧ LiveIn c.heap bs c.live

/-! ## A failed `mm_malloc` -/

namespace Heap

variable {h : Heap} {bs : List Nat}

theorem extendHeap_ne_null (hi : h.Inv bs) (hs : h.Shaped) {words b : Nat} {h' : Heap}
    (e : h.extendHeap words true = .ok (h', b)) : b ≠ 0 := by
  have hle := hi.heapListp_le
  have hp := hs.2
  have hb : wsize ≤ h.brk - wsize := by simp only [wsize] at *; omega
  simp only [extendHeap, memSbrk_true] at e
  rw [if_neg (by simp only [wsize] at *; omega)] at e
  rcases coalesce_result e with rfl | ⟨hfree, rfl⟩
  · simp only [wsize] at *; omega
  have hprev := @tag_setHeaderAndFooter_prev { h with brk := h.brk + words * wsize % 2 ^ 64 }
    (h.brk - wsize) words false hb
  unfold markBlockFree at hfree ⊢
  generalize ({ h with brk := h.brk + words * wsize % 2 ^ 64 } : Heap).setHeaderAndFooter
    (h.brk - wsize) words false = H1 at hfree hprev ⊢
  have hfence : (H1.setTag (H1.nextBlk (h.brk - wsize)) fence).tag (prevBlkFooter (h.brk - wsize)) =
      H1.tag (h.brk - wsize - wsize) :=
    tag_setTag_of_ne _ (.inl (by simp only [prevBlkFooter, nextBlk, wsize] at hb ⊢; omega))
  simp only [prevBlk, hfence] at hfree ⊢
  rcases hprev with hsame | hzero
  · replace hsame : H1.tag (h.brk - wsize - wsize) = h.tag (prevBlkFooter (h.brk - wsize)) := hsame
    rw [hsame] at hfree ⊢
    rcases hi.prev_epilogue with hu | hm
    · exact absurd hu (by rw [hfree]; decide)
    · have := hi.le_of_mem hm
      simp only [prevBlk, prevBlkFooter, wsize] at this hp ⊢
      omega
  · rw [hzero, Nat.mul_zero, Nat.sub_zero]
    simp only [wsize] at hb ⊢
    omega

/-- `mm_malloc(size)` with `size > 0` that returns NULL on a heap with the invariant leaves the
heap as it was: NULL comes only from a size that overflows or from a failed `mem_sbrk`, and
neither writes anything. -/
theorem mmMalloc_eq_null (hi : h.Inv bs) (hs : h.Shaped) {size : Nat} {ok : Bool} {h' : Heap}
    (hn : 0 < size) (e : h.mmMalloc size ok = .ok (h', 0)) : h' = h := by
  have hp : h.heapListp ≠ 0 := by have := hs.2; simp only [wsize] at this; omega
  simp only [mmMalloc, if_neg (Nat.pos_iff_ne_zero.1 hn), if_neg hp, pure_eq, ok_bind] at e
  split at e
  · cases e
    rfl
  split at e
  · obtain ⟨_, -, e⟩ := bind_eq_ok.1 e
    cases e
  obtain ⟨⟨h2, b⟩, ex, e⟩ := bind_eq_ok.1 e
  split at e
  · next hb =>
    cases e
    cases ok
    · rw [extendHeap_false] at ex
      cases ex
      rfl
    · exact absurd hb (extendHeap_ne_null hi hs ex)
  · obtain ⟨_, -, e⟩ := bind_eq_ok.1 e
    cases e

end Heap

end Malloc
end SystemsLab
