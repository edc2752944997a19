import SystemsLab.Malloc.Layout

/-!
# Malloc.Coalesce

`coalesce` keeps the invariant. It is called on a free block that no list holds, in a layout
that is otherwise whole; it merges the block with its free neighbours and lists the result, so
that afterwards no two free blocks are adjacent and every free block is on the list of its size
class. `mm_free` and `extend_heap` each make such a block and call `coalesce` on it, so they keep
the invariant too.

The allocated blocks stay where they are with their tags (`UsedKept`): this is what keeps the
program's pointers valid.

* `Heap.coalesce_tiling`: the four branches of `coalesce`;
* `Heap.mmFree_tiling`, `Heap.extendHeap_tiling`: the calls that end in it.
-/

namespace SystemsLab
namespace Malloc

/-- The allocated blocks of the layout `ts` of `h` are allocated blocks of the layout `ts'` of
`h'`, with the same tags and the same bytes. -/
def UsedKept (h h' : Heap) (ts ts' : List Tag) : Prop :=
  ∀ b ∈ addrs h.heapListp ts, (h.tag b).inuse = true →
    b ∈ addrs h'.heapListp ts' ∧ h'.tag b = h.tag b ∧
      ∀ x, b ≤ x → x < b + wsize * (h.tag b).size → h'.mem x = h.mem x

theorem UsedKept.refl (h : Heap) (ts : List Tag) : UsedKept h h ts ts :=
  fun _ hb _ => ⟨hb, rfl, fun _ _ _ => rfl⟩

theorem UsedKept.trans {h₁ h₂ h₃ : Heap} {ts₁ ts₂ ts₃ : List Tag} (h12 : UsedKept h₁ h₂ ts₁ ts₂)
    (h23 : UsedKept h₂ h₃ ts₂ ts₃) : UsedKept h₁ h₃ ts₁ ts₃ := fun b hb hu =>
  have ⟨hb2, ht2, hm2⟩ := h12 b hb hu
  have ⟨hb3, ht3, hm3⟩ := h23 b hb2 (by rw [ht2]; exact hu)
  ⟨hb3, ht3.trans ht2, fun x h1 h2 => (hm3 x h1 (by rw [ht2]; exact h2)).trans (hm2 x h1 h2)⟩

theorem getD_fence_inuse {o : Option Tag} :
    (o.getD fence).inuse = true ↔ ∀ x ∈ o, x.inuse = true := by
  cases o <;> simp [fence]

theorem noFreePair_between {A B : List Tag} {t : Tag} (hA : NoFreePair A) (hB : NoFreePair B)
    (hpa : (A.getLast?.getD fence).inuse = true) (hna : (B.head?.getD fence).inuse = true) :
    NoFreePair (A ++ t :: B) := by
  refine noFreePair_append.2 ⟨hA, ?_, fun x hx _ _ => .inl (getD_fence_inuse.1 hpa x hx)⟩
  cases B with
  | nil => trivial
  | cons n B => exact ⟨.inr hna, hB⟩

theorem NoFreePair.of_cons_free {n : Tag} {B : List Tag} (hnf : NoFreePair (n :: B))
    (hn : n.inuse = false) : NoFreePair B ∧ (B.head?.getD fence).inuse = true := by
  cases B with
  | nil => exact ⟨trivial, rfl⟩
  | cons m B => exact ⟨hnf.2, hnf.1.resolve_left (by simp [hn])⟩

theorem NoFreePair.of_concat_free {A : List Tag} {p : Tag} (hnf : NoFreePair (A ++ [p]))
    (hp : p.inuse = false) : NoFreePair A ∧ (A.getLast?.getD fence).inuse = true := by
  obtain ⟨hA, -, hb⟩ := noFreePair_append.1 hnf
  exact ⟨hA, getD_fence_inuse.2 fun x hx => (hb x hx p rfl).resolve_right (by simp [hp])⟩

theorem NoFreePair.tail {u : Tag} {B : List Tag} (hnf : NoFreePair (u :: B)) : NoFreePair B := by
  cases B with
  | nil => trivial
  | cons n B => exact hnf.2

theorem exists_concat_free {A : List Tag} (hpa : (A.getLast?.getD fence).inuse = false) :
    ∃ A' p, A = A' ++ [p] ∧ p.inuse = false := by
  rcases A.eq_nil_or_concat with rfl | ⟨A', p, rfl⟩
  · exact absurd hpa (by decide)
  · exact ⟨A', p, List.concat_eq_append .., by simpa using hpa⟩

theorem exists_cons_free {B : List Tag} (hna : (B.head?.getD fence).inuse = false) :
    ∃ n B', B = n :: B' ∧ n.inuse = false := by
  cases B with
  | nil => exact absurd hna (by decide)
  | cons n B => exact ⟨n, B, rfl, hna⟩

namespace Heap

variable {h : Heap}

theorem Framed.prevBlk_eq {A ts : List Tag} {p : Tag} (hf : h.Framed (A ++ [p] ++ ts)) :
    h.prevBlk (h.heapListp + wsize * span (A ++ [p])) = h.heapListp + wsize * span A ∧
      h.blkSize (h.heapListp + wsize * span A) = p.size := by
  have hseg := (h.seg_append).1 ((h.seg_append).1 hf.seg).1
  refine ⟨?_, by simp only [blkSize, hseg.2.2.1]⟩
  rw [prevBlk, hf.tag_before]
  simp only [List.getLast?_concat, Option.getD_some, span_append, span_cons, span_nil, wsize]
  omega

theorem Seg.tag_mem : ∀ {a : Nat} {ts : List Tag}, h.Seg a ts → ∀ b ∈ addrs a ts, h.tag b ∈ ts
  | _, [], _ => nofun
  | _, _ :: _, ⟨_, ht, _, hs⟩ => by
    rintro b (_ | ⟨_, hb⟩)
    · exact ht ▸ List.mem_cons_self _ _
    · exact List.mem_cons_of_mem _ (Seg.tag_mem hs b hb)

theorem Seg.outside {a : Nat} {L R M : List Tag} (hs : h.Seg a (L ++ R ++ M)) {b : Nat}
    (hb : b ∈ addrs a L ++ addrs (a + wsize * span L + wsize * span R) M) :
    b + wsize ≤ a + wsize * span L ∨ a + wsize * span L + wsize * span R ≤ b := by
  rw [seg_append, seg_append] at hs
  rcases List.mem_append.1 hb with hb | hb
  · have := (hs.1.1.addrs_bounds b hb).2
    simp only [minBlockSizeWords, wsize] at this ⊢
    omega
  · have := (hs.2.addrs_bounds b (by simpa only [span_append, Nat.mul_add, Nat.add_assoc] using hb)).1
    simp only [span_append, Nat.mul_add, ← Nat.add_assoc] at this
    exact .inr this

theorem tag_frame {h' : Heap} {lo hi b : Nat} (hm : ∀ x, x < lo ∨ hi ≤ x → h'.mem x = h.mem x)
    (hb : b + wsize ≤ lo ∨ hi ≤ b) : h'.tag b = h.tag b :=
  h.tag_congr fun x h1 h2 => hm x (by omega)

theorem Seg.listed_frame {h' : Heap} {a : Nat} {L R M : List Tag} {ls : List FreeList}
    (hs : h.Seg a (L ++ R ++ M))
    (hm : ∀ x, x < a + wsize * span L ∨ a + wsize * span L + wsize * span R ≤ x →
      h'.mem x = h.mem x)
    (hl : Listed ls (freeAddrs a L ++ freeAddrs (a + wsize * span L + wsize * span R) M)
      h.blkSize) :
    Listed ls (freeAddrs a L ++ freeAddrs (a + wsize * span L + wsize * span R) M) h'.blkSize :=
  hl.congr fun b hb => congrArg Tag.size <| tag_frame hm <|
    hs.outside (List.mem_append.2 <| (List.mem_append.1 hb).imp (freeAddrs_sub b) (freeAddrs_sub b))

theorem Seg.block_outside {a : Nat} {L R M : List Tag} (hs : h.Seg a (L ++ R ++ M)) {b : Nat}
    (hb : b ∈ addrs a L ++ addrs (a + wsize * span L + wsize * span R) M) {x : Nat}
    (h1 : b ≤ x) (h2 : x < b + wsize * (h.tag b).size) :
    x < a + wsize * span L ∨ a + wsize * span L + wsize * span R ≤ x := by
  rw [seg_append, seg_append] at hs
  rcases List.mem_append.1 hb with hb | hb
  · exact .inl (by have := (hs.1.1.block_bounds b hb).2; omega)
  · have := (hs.2.addrs_bounds b (by simpa only [span_append, Nat.mul_add, Nat.add_assoc] using hb)).1
    simp only [span_append, Nat.mul_add, ← Nat.add_assoc] at this
    exact .inr (by omega)

theorem Seg.keeps {h' : Heap} {a : Nat} {L R R' M : List Tag} (hs : h.Seg a (L ++ R ++ M))
    (hspan : span R' = span R)
    (hm : ∀ x, x < a + wsize * span L ∨ a + wsize * span L + wsize * span R ≤ x →
      h'.mem x = h.mem x) {b : Nat} (hb : b ∈ addrs a (L ++ R ++ M))
    (hR : b ∉ addrs (a + wsize * span L) R) :
    b ∈ addrs a (L ++ R' ++ M) ∧ h'.tag b = h.tag b ∧
      ∀ x, b ≤ x → x < b + wsize * (h.tag b).size → h'.mem x = h.mem x := by
  have hLM : b ∈ addrs a L ++ addrs (a + wsize * span L + wsize * span R) M := by
    simp only [addrs_append, span_append, Nat.mul_add, ← Nat.add_assoc, List.mem_append] at hb ⊢
    rcases hb with (hb | hb) | hb
    · exact .inl hb
    · exact absurd hb hR
    · exact .inr hb
  refine ⟨?_, tag_frame hm (hs.outside hLM), fun x h1 h2 => hm x (hs.block_outside hLM h1 h2)⟩
  simp only [addrs_append, span_append, Nat.mul_add, ← Nat.add_assoc, hspan, List.mem_append] at hLM ⊢
  exact hLM.imp_left .inl

theorem Shaped.exists_listSize_le (hs : h.Shaped) {n : Nat} (h8 : minBlockSizeWords ≤ n) :
    ∃ l ∈ h.lists, l.listSize ≤ n := by
  have : 8 ∈ h.lists.map FreeList.listSize := by
    rw [show h.lists.map FreeList.listSize = sizeClasses from hs.1]
    decide
  obtain ⟨l, hl, h8'⟩ := List.mem_map.1 this
  exact ⟨l, hl, h8' ▸ h8⟩

theorem Shaped.sorted (hs : h.Shaped) : (h.lists.map FreeList.listSize).Pairwise (· > ·) := by
  rw [show h.lists.map FreeList.listSize = sizeClasses from hs.1]
  decide

theorem not_mem_freeAddrs {a : Nat} {A ts : List Tag} (hs : h.Seg a (A ++ ts)) {x : Nat}
    (hx : a + wsize * span A ≤ x) : x ∉ freeAddrs a A := fun hm => by
  have := (((h.seg_append).1 hs).1.addrs_bounds x (freeAddrs_sub x hm)).2
  simp only [minBlockSizeWords, wsize] at this hx
  omega

/-! ## The steps of `coalesce` -/

theorem unlink_listed {sz : Nat → Nat} {xs ys : List Nat} {b : Nat} (hs : h.Shaped)
    (hl : Listed h.lists (xs ++ b :: ys) sz) (hb : b ∉ xs) :
    ∃ ls, h.unlink b = .ok { h with lists := ls } ∧ ({ h with lists := ls } : Heap).Shaped ∧
      Listed ls (xs ++ ys) sz := by
  obtain ⟨ls, e, hsizes, hl'⟩ := hl.remove hb
  exact ⟨ls, by rw [unlink, e], ⟨hsizes.trans hs.1, hs.2⟩, hl'⟩

theorem addFreeBlock_tiling {A B : List Tag} {t : Tag} (hf : h.Framed (A ++ t :: B))
    (hs : h.Shaped) (ht : t.inuse = false) (hnf : NoFreePair (A ++ t :: B))
    (hl : Listed h.lists (freeAddrs h.heapListp A ++
      freeAddrs (h.heapListp + wsize * span A + wsize * t.size) B) h.blkSize) :
    ∃ ls, h.addFreeBlock (h.heapListp + wsize * span A) = .ok { h with lists := ls } ∧
      ({ h with lists := ls } : Heap).Tiling (A ++ t :: B) := by
  have hseg := ((h.seg_append).1 hf.seg).2
  have hsize : h.blkSize (h.heapListp + wsize * span A) = t.size := by
    simp only [blkSize, hseg.2.1]
  refine ⟨_, by rw [addFreeBlock, if_neg hs.lists_ne_nil], (framed_lists _ _ _).2 hf, hnf, ?_⟩
  have hpush := hl.push hs.sorted (b := h.heapListp + wsize * span A)
    (hsize ▸ hs.exists_listSize_le hseg.1)
  refine hpush.of_perm ?_
  simp only [freeAddrs_append, freeAddrs, ht]
  exact List.perm_middle.symm

theorem merge_tiling {L R M : List Tag} (hf : h.Framed (L ++ R ++ M)) (hs : h.Shaped)
    (hL : NoFreePair L) (hM : NoFreePair M) (hpa : (L.getLast?.getD fence).inuse = true)
    (hna : (M.head?.getD fence).inuse = true) (hfree : ∀ x ∈ R, x.inuse = false)
    (hl : Listed h.lists (freeAddrs h.heapListp L ++
      freeAddrs (h.heapListp + wsize * span L + wsize * span R) M) h.blkSize)
    (h8 : minBlockSizeWords ≤ span R) (h31 : span R < 2 ^ 31) :
    ∃ h', (h.markBlockFree (h.heapListp + wsize * span L) (span R)).addFreeBlock
        (h.heapListp + wsize * span L) = .ok h' ∧
      h'.Tiling (L ++ ⟨false, span R, lt_two_pow_63 h31⟩ :: M) ∧ h'.heapListp = h.heapListp ∧
      h'.brk = h.brk ∧ UsedKept h h' (L ++ R ++ M) (L ++ ⟨false, span R, lt_two_pow_63 h31⟩ :: M) := by
  have hm : ∀ x, x < h.heapListp + wsize * span L ∨
      h.heapListp + wsize * span L + wsize * span R ≤ x →
      (h.markBlockFree (h.heapListp + wsize * span L) (span R)).mem x = h.mem x :=
    fun _ hx => h.setHeaderAndFooter_mem (by simp only [minBlockSizeWords] at h8; omega) h31 hx
  have hf' := hf.setHeaderAndFooter hs h8 h31 false
  rw [List.append_assoc, List.singleton_append] at hf'
  have hl' := hf.seg.listed_frame hm hl
  obtain ⟨ls, e, ht⟩ := addFreeBlock_tiling hf' (by simpa using hs) rfl
    (noFreePair_between hL hM hpa hna) hl'
  refine ⟨_, e, ht, rfl, rfl, fun b hb hu => ?_⟩
  have hR := ((h.seg_append).1 ((h.seg_append).1 hf.seg).1).2
  have hk := hf.seg.keeps (show span [(⟨false, span R, lt_two_pow_63 h31⟩ : Tag)] = span R by simp) hm hb
    fun hb' => absurd hu (by simp [hfree _ (hR.tag_mem b hb')])
  rwa [List.append_assoc, List.singleton_append] at hk

/-- `coalesce` of a free block that no list holds, in a layout that is otherwise whole, merges it
with its free neighbours into one listed free block: the invariant holds again, the block
returned is the merged one, and the allocated blocks stay as they were. -/
theorem coalesce_tiling {A B : List Tag} {t : Tag} (hf : h.Framed (A ++ t :: B)) (hs : h.Shaped)
    (ht : t.inuse = false) (hA : NoFreePair A) (hB : NoFreePair B)
    (hl : Listed h.lists (freeAddrs h.heapListp A ++
      freeAddrs (h.heapListp + wsize * span A + wsize * t.size) B) h.blkSize)
    (h31 : span (A ++ t :: B) < 2 ^ 31) :
    ∃ h' A' t' B', h.coalesce (h.heapListp + wsize * span A) =
        .ok (h', h.heapListp + wsize * span A') ∧
      h'.Tiling (A' ++ t' :: B') ∧ t'.inuse = false ∧ t.size ≤ t'.size ∧
      h'.heapListp = h.heapListp ∧ h'.brk = h.brk ∧ UsedKept h h' (A ++ t :: B) (A' ++ t' :: B') ∧
      (EvenSizes (A ++ t :: B) → EvenSizes (A' ++ t' :: B')) := by
  have hseg := ((h.seg_append).1 hf.seg).2
  have hsize : h.blkSize (h.heapListp + wsize * span A) = t.size := by
    simp only [blkSize, hseg.2.1]
  have hnextAddr : h.nextBlk (h.heapListp + wsize * span A) =
      h.heapListp + wsize * span A + wsize * t.size := by
    rw [nextBlk, hsize]
  have hprev := hf.tag_before
  have hnext : h.blkFree (h.heapListp + wsize * span A + wsize * t.size) =
      !(B.head?.getD fence).inuse := by
    have := (show h.Framed ((A ++ [t]) ++ B) by simpa using hf).tag_after
    simp only [span_append, span_cons, span_nil, Nat.add_zero, Nat.mul_add, ← Nat.add_assoc]
      at this
    rw [blkFree, this]
  cases hpa : (A.getLast?.getD fence).inuse <;> cases hna : (B.head?.getD fence).inuse <;>
    simp only [coalesce, hprev, hpa, hnextAddr, hnext, hna, Bool.not_not, Bool.not_false,
      Bool.not_true, Bool.and_self, Bool.and_false, Bool.and_true, Bool.true_and, Bool.false_and,
      Bool.false_eq_true, ↓reduceIte]
  · -- both neighbours are free: both are unlinked and taken in
    obtain ⟨A, p, rfl, hp⟩ := exists_concat_free hpa
    obtain ⟨n, B, rfl, hn⟩ := exists_cons_free hna
    obtain ⟨hA', hpa'⟩ := hA.of_concat_free hp
    obtain ⟨hB', hna'⟩ := hB.of_cons_free hn
    obtain ⟨hprevAddr, hpsize⟩ := hf.prevBlk_eq
    have hseg' : h.Seg h.heapListp (A ++ p :: t :: n :: B) := by simpa using hf.seg
    have hn' : h.blkSize (h.heapListp + wsize * span (A ++ [p]) + wsize * t.size) = n.size := by
      simp only [blkSize, hseg.2.2.2.2.1]
    simp only [freeAddrs_append, freeAddrs, hp, hn, Bool.false_eq_true, ↓reduceIte,
      List.append_assoc, List.singleton_append, List.cons_append, List.nil_append] at hl
    obtain ⟨ls, e1, hs1, hl1⟩ := unlink_listed hs hl (not_mem_freeAddrs hseg' (Nat.le_refl _))
    obtain ⟨ls', e2, hs2, hl2⟩ := unlink_listed hs1 hl1 (not_mem_freeAddrs hseg'
      (by simp only [span_append, span_cons, span_nil, Nat.mul_add, wsize]; omega))
    obtain ⟨h', e3, hti, hp', hb, hk⟩ := merge_tiling (R := [p, t, n])
      (by simpa using hf) hs2 hA' hB' hpa' hna' (by simp [ht, hn, hp])
      (by simpa only [span_append, span_cons, span_nil, Nat.add_zero, Nat.mul_add,
        ← Nat.add_assoc] using hl2)
      (by have h8 := hseg.1; simp only [span_cons, span_nil, minBlockSizeWords] at h8 ⊢; omega)
      (by simp only [span_append, span_cons, span_nil] at h31 ⊢; omega)
    refine ⟨h', A, _, B, ?_, hti, rfl, by simp only [span_cons]; omega, hp', hb,
      by simpa using hk, fun he => EvenSizes.merge (by simpa using he)⟩
    have hsum : t.size + p.size + n.size = span [p, t, n] := by
      simp only [span_cons, span_nil]
      omega
    simp only [hprevAddr, e1, ok_bind, e2, blkSize_lists, hsize, hpsize, hn', hsum, e3]
    rfl
  · -- the previous block is free: it is unlinked and takes the block in
    obtain ⟨A, p, rfl, hp⟩ := exists_concat_free hpa
    obtain ⟨hA', hpa'⟩ := hA.of_concat_free hp
    obtain ⟨hprevAddr, hpsize⟩ := hf.prevBlk_eq
    have hseg' : h.Seg h.heapListp (A ++ p :: t :: B) := by simpa using hf.seg
    simp only [freeAddrs_append, freeAddrs, hp, Bool.false_eq_true, ↓reduceIte,
      List.append_assoc, List.singleton_append, List.cons_append, List.nil_append] at hl
    obtain ⟨ls, e1, hs1, hl1⟩ := unlink_listed hs hl (not_mem_freeAddrs hseg' (Nat.le_refl _))
    obtain ⟨h', e2, hti, hp', hb, hk⟩ := merge_tiling (R := [p, t])
      (by simpa using hf) hs1 hA' hB hpa' hna (by simp [ht, hp])
      (by simpa only [span_append, span_cons, span_nil, Nat.add_zero, Nat.mul_add,
        ← Nat.add_assoc] using hl1)
      (by have h8 := hseg.1; simp only [span_cons, span_nil, minBlockSizeWords] at h8 ⊢; omega)
      (by simp only [span_append, span_cons, span_nil] at h31 ⊢; omega)
    refine ⟨h', A, _, B, ?_, hti, rfl, by simp only [span_cons]; omega, hp', hb,
      by simpa using hk, fun he => EvenSizes.merge (by simpa using he)⟩
    have hsum : t.size + p.size = span [p, t] := by
      simp only [span_cons, span_nil]
      omega
    simp only [hprevAddr, e1, ok_bind, blkSize_lists, hsize, hpsize, hsum, e2]
    rfl
  · -- the next block is free: it is unlinked and taken in
    obtain ⟨n, B, rfl, hn⟩ := exists_cons_free hna
    obtain ⟨hB', hna'⟩ := hB.of_cons_free hn
    have hn' : h.blkSize (h.heapListp + wsize * span A + wsize * t.size) = n.size := by
      simp only [blkSize, hseg.2.2.2.2.1]
    rw [freeAddrs, if_neg (by simp [hn])] at hl
    obtain ⟨ls, e1, hs1, hl1⟩ := unlink_listed hs hl (not_mem_freeAddrs hf.seg (by omega))
    obtain ⟨h', e2, hti, hp, hb, hk⟩ := merge_tiling (R := [t, n])
      (by simpa using hf) hs1 hA hB' hpa hna' (by simp [ht, hn])
      (by simpa only [span_cons, span_nil, Nat.add_zero, Nat.mul_add, ← Nat.add_assoc] using hl1)
      (by have h8 := hseg.1; simp only [span_cons, span_nil, minBlockSizeWords] at h8 ⊢; omega)
      (by simp only [span_append, span_cons, span_nil] at h31 ⊢; omega)
    refine ⟨h', A, _, B, ?_, hti, rfl, by simp, hp, hb, by simpa using hk,
      fun he => EvenSizes.merge (by simpa using he)⟩
    simp only [span_cons, span_nil, Nat.add_zero] at e2
    simp only [e1, ok_bind, blkSize_lists, hsize, hn', e2]
    rfl
  · -- both neighbours allocated: the block is only listed
    obtain ⟨ls, e, hti⟩ := addFreeBlock_tiling hf hs ht (noFreePair_between hA hB hpa hna) hl
    exact ⟨_, A, t, B, by simp only [e]; rfl, hti, ht, Nat.le_refl _, rfl, rfl,
      fun b hb _ => ⟨hb, rfl, fun _ _ _ => rfl⟩, id⟩

/-! ## `mm_free` -/

/-- `mm_free` of the payload of an allocated block restores the invariant: the block is merged
into a free one, and every other allocated block stays as it was. -/
theorem mmFree_tiling {ts : List Tag} (ht : h.Tiling ts) (hs : h.Shaped) (h31 : span ts < 2 ^ 31)
    {bp : Nat} (hbp : wsize ≤ bp) (hb : bp - wsize ∈ addrs h.heapListp ts)
    (hu : (h.tag (bp - wsize)).inuse = true) :
    ∃ h' ts', h.mmFree bp = .ok h' ∧ h'.Tiling ts' ∧ h'.heapListp = h.heapListp ∧
      h'.brk = h.brk ∧ (∀ b ∈ addrs h.heapListp ts, b ≠ bp - wsize → (h.tag b).inuse = true →
        b ∈ addrs h'.heapListp ts' ∧ h'.tag b = h.tag b ∧
          ∀ x, b ≤ x → x < b + wsize * (h.tag b).size → h'.mem x = h.mem x) ∧
      (EvenSizes ts → EvenSizes ts') := by
  obtain ⟨A, u, B, rfl, hb0⟩ := exists_of_mem_addrs hb
  have hf : h.Framed (A ++ [u] ++ B) := by simpa using ht.framed
  have hseg := ((h.seg_append).1 ht.framed.seg).2
  have hu' : u.inuse = true := by rw [hb0, hseg.2.1] at hu; exact hu
  have hsize : h.blkSize (h.heapListp + wsize * span A) = span [u] := by
    simp only [blkSize, hseg.2.1, span_cons, span_nil, Nat.add_zero]
  have h8 : minBlockSizeWords ≤ span [u] := by simpa using hseg.1
  have h31' : span [u] < 2 ^ 31 := by simp only [span_append, span_cons, span_nil] at h31 ⊢; omega
  have hm : ∀ x, x < h.heapListp + wsize * span A ∨
      h.heapListp + wsize * span A + wsize * span [u] ≤ x →
      (h.setHeaderAndFooter (h.heapListp + wsize * span A) (span [u]) false).mem x = h.mem x :=
    fun _ hx => h.setHeaderAndFooter_mem (by simp only [minBlockSizeWords] at h8; omega) h31' hx
  have hf1 := hf.setHeaderAndFooter hs h8 h31' false
  rw [List.append_assoc, List.singleton_append] at hf1
  obtain ⟨hA, hnfB, -⟩ := noFreePair_append.1 ht.no_free_pair
  have hl : Listed h.lists (freeAddrs h.heapListp A ++
      freeAddrs (h.heapListp + wsize * span A + wsize * span [u]) B) h.blkSize := by
    simpa [freeAddrs_append, freeAddrs, hu'] using ht.listed
  have hl1 := hf.seg.listed_frame hm hl
  obtain ⟨h', A', t', B', e, hti, -, -, hp, hbrk, hk, hev⟩ :=
    coalesce_tiling hf1 (by simpa using hs) rfl hA hnfB.tail hl1
      (by simp only [span_append, span_cons, span_nil] at h31 ⊢; omega)
  refine ⟨h', _, ?_, hti, hp, hbrk, fun b hb' hne hbu => ?_,
    fun he => hev (EvenSizes.merge (by simpa using he))⟩
  · have hne0 : bp ≠ 0 := by simp only [wsize] at hbp; omega
    simp only [setHeaderAndFooter_heapListp] at e
    simp only [mmFree, if_neg hne0, hb0, hsize, markBlockFree, e]
    rfl
  · have hk1 := hf.seg.keeps (show span [(⟨false, span [u], lt_two_pow_63 h31'⟩ : Tag)] = span [u] from rfl) hm
      (by simpa using hb') (by simpa [addrs, ← hb0] using hne)
    rw [List.append_assoc, List.singleton_append] at hk1
    obtain ⟨hb1, ht1, hm1⟩ := hk1
    obtain ⟨hk2, ht2, hm2⟩ := hk b hb1 (by rw [ht1]; exact hbu)
    exact ⟨hk2, ht2.trans ht1, fun x h1 h2 => (hm2 x h1 (by rw [ht1]; exact h2)).trans (hm1 x h1 h2)⟩

/-! ## `extend_heap` -/

/-- `extend_heap` with a successful `mem_sbrk`, on a heap whose blocks reach up to the word below
the break (the epilogue there may still be missing, as in `mm_init`), makes a free block of
`words` words at that word and coalesces it: the invariant holds, and the block returned is free
with at least `words` words. -/
theorem extendHeap_tiling {ts : List Tag} (hs : h.Shaped)
    (hpro : h.tag (prevBlkFooter h.heapListp) = fence) (hseg : h.Seg h.heapListp ts)
    (hbrk : h.brk = h.heapListp + wsize * span ts + wsize) (hnf : NoFreePair ts)
    (hl : Listed h.lists (freeAddrs h.heapListp ts) h.blkSize)
    {words : Nat} (h8 : minBlockSizeWords ≤ words) (h31 : span ts + words < 2 ^ 31) :
    ∃ h' A t B, h.extendHeap words true = .ok (h', h.heapListp + wsize * span A) ∧
      h'.Tiling (A ++ t :: B) ∧ t.inuse = false ∧ words ≤ t.size ∧
      h'.heapListp = h.heapListp ∧ h'.brk = h.brk + wsize * words ∧
      UsedKept h h' ts (A ++ t :: B) ∧ (EvenSizes ts → words % 2 = 0 → EvenSizes (A ++ t :: B)) := by
  have hp8 := hs.2
  have h31' : words < 2 ^ 31 := by omega
  have hext : h.extendHeap words true =
      ((({ h with brk := h.brk + wsize * words } : Heap).markBlockFree
        (h.heapListp + wsize * span ts) words).setTag
        ((({ h with brk := h.brk + wsize * words } : Heap).markBlockFree
          (h.heapListp + wsize * span ts) words).nextBlk (h.heapListp + wsize * span ts))
        fence).coalesce (h.heapListp + wsize * span ts) := by
    have hw : words * wsize % 2 ^ 64 = wsize * words := by simp only [wsize]; omega
    have he : h.brk - wsize = h.heapListp + wsize * span ts := by
      simp only [wsize] at hbrk ⊢; omega
    simp only [extendHeap, memSbrk_true, hw, he, if_neg (show h.brk ≠ 0 by omega)]
  obtain ⟨hhead, -, -, -⟩ := @setHeaderAndFooter_spec { h with brk := h.brk + wsize * words }
    (h.heapListp + wsize * span ts) words false (by simp only [minBlockSizeWords] at h8; omega) h31'
  have hnext : (({ h with brk := h.brk + wsize * words } : Heap).markBlockFree
      (h.heapListp + wsize * span ts) words).nextBlk (h.heapListp + wsize * span ts) =
      h.heapListp + wsize * span ts + wsize * words := by
    simp only [nextBlk, blkSize, markBlockFree, hhead]
  have hm1 : ∀ x, x < h.heapListp + wsize * span ts ∨
      h.heapListp + wsize * span ts + wsize * words ≤ x →
      (({ h with brk := h.brk + wsize * words } : Heap).markBlockFree
        (h.heapListp + wsize * span ts) words).mem x = h.mem x :=
    fun _ hx => setHeaderAndFooter_mem _ (by simp only [minBlockSizeWords] at h8; omega) h31' hx
  have hseg1 : (({ h with brk := h.brk + wsize * words } : Heap).markBlockFree
      (h.heapListp + wsize * span ts) words).Seg (h.heapListp + wsize * span ts)
      [⟨false, words, lt_two_pow_63 h31'⟩] :=
    @setHeaderAndFooter_seg { h with brk := h.brk + wsize * words }
      (h.heapListp + wsize * span ts) words false h8 h31'
  have hb1 : (({ h with brk := h.brk + wsize * words } : Heap).markBlockFree
      (h.heapListp + wsize * span ts) words).brk = h.brk + wsize * words := rfl
  have hp1 : (({ h with brk := h.brk + wsize * words } : Heap).markBlockFree
      (h.heapListp + wsize * span ts) words).heapListp = h.heapListp := rfl
  have hl1 : (({ h with brk := h.brk + wsize * words } : Heap).markBlockFree
      (h.heapListp + wsize * span ts) words).lists = h.lists := rfl
  rw [hnext] at hext
  generalize ({ h with brk := h.brk + wsize * words } : Heap).markBlockFree
    (h.heapListp + wsize * span ts) words = h1 at hext hm1 hseg1 hb1 hp1 hl1
  have hm2 : ∀ x, x < h.heapListp + wsize * span ts →
      (h1.setTag (h.heapListp + wsize * span ts + wsize * words) fence).mem x = h.mem x :=
    fun x hx => by
      simp only [setTag]
      rw [writeTag_apply (.inl (by omega)), hm1 x (.inl hx)]
  have hbelow : ∀ b ∈ addrs h.heapListp ts,
      (h1.setTag (h.heapListp + wsize * span ts + wsize * words) fence).tag b = h.tag b :=
    fun b hb => by
      have := (hseg.addrs_bounds b hb).2
      simp only [minBlockSizeWords] at this
      exact h.tag_congr fun x _ h2 => hm2 x (by simp only [wsize] at h2 this ⊢; omega)
  have hf2 : (h1.setTag (h.heapListp + wsize * span ts + wsize * words) fence).Framed
      (ts ++ [⟨false, words, lt_two_pow_63 h31'⟩]) := by
    refine ⟨?_, ?_, ?_, ?_⟩
    · rw [setTag_heapListp, hp1]
      refine (h.tag_congr fun x _ h2 => hm2 x ?_).trans hpro
      simp only [prevBlkFooter, wsize] at h2 hp8 ⊢
      omega
    · rw [setTag_heapListp, hp1, seg_append]
      refine ⟨(h.seg_congr fun x _ h2 => hm2 x h2).2 hseg, (h1.seg_congr fun x _ h2 => ?_).2 hseg1⟩
      simp only [setTag]
      rw [writeTag_apply (.inl (by simpa using h2))]
    · simp only [setTag_brk, setTag_heapListp, hb1, hp1, hbrk, span_append, span_cons, span_nil,
        wsize]
      omega
    · simp only [setTag_heapListp, hp1, span_append, span_cons, span_nil, Nat.add_zero,
        Nat.mul_add, ← Nat.add_assoc, tag_setTag_self]
  have hl2 : Listed (h1.setTag (h.heapListp + wsize * span ts + wsize * words) fence).lists
      (freeAddrs h.heapListp ts)
      (h1.setTag (h.heapListp + wsize * span ts + wsize * words) fence).blkSize := by
    simpa only [setTag_lists, hl1] using
      hl.congr fun b hb => congrArg Tag.size (hbelow b (freeAddrs_sub b hb))
  have hs2 : (h1.setTag (h.heapListp + wsize * span ts + wsize * words) fence).Shaped := by
    rw [shaped_setTag, Shaped, listSizes, hl1, hp1]
    exact hs
  obtain ⟨h', A, t, B, e, hti, hfree, hle, hp', hb', hk, hev⟩ :=
    coalesce_tiling hf2 hs2 rfl hnf trivial
      (by simpa only [setTag_heapListp, hp1, freeAddrs, List.append_nil] using hl2)
      (by simp only [span_append, span_cons, span_nil]; omega)
  simp only [setTag_heapListp, hp1, setTag_brk, hb1] at e hp' hb'
  refine ⟨h', A, t, B, hext.trans e, hti, hfree, hle, hp', hb', UsedKept.trans ?_ hk,
    fun he hw => hev (evenSizes_append.2 ⟨he, evenSizes_cons.2 ⟨hw, nofun⟩⟩)⟩
  intro b hb _
  simp only [setTag_heapListp, hp1]
  exact ⟨by rw [addrs_append]; exact List.mem_append_left _ hb, hbelow b hb,
    fun x _ h2 => hm2 x (by have := (hseg.block_bounds b hb).2; omega)⟩

end Heap

end Malloc
end SystemsLab
