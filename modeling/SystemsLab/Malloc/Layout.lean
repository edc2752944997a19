import SystemsLab.Malloc.Client

/-!
# Malloc.Layout

The heap of `mm.c` as its design sees it: the blocks between the fences as a list of tags, front
to back, laid out one after another from `heap_listp`, each with its tag in its header and its
footer. `Heap.Tiling ts` is `Heap.Inv` with the blocks given by their tags, and
`Heap.inv_iff_tiling` connects the two.

A call rewrites the tags of one block or of a few neighbours. `Heap.seg_append` splits the list
around the blocks it works on, and `Heap.seg_congr` says that the blocks around, whose bytes it
does not write, keep their tags.

* `Heap.blocksFrom_of_seg`, `Heap.seg_of_blocksFrom`: the walk of `Heap.blocks` passes exactly
  the blocks of a layout;
* `Heap.inv_iff_tiling`: the invariant in terms of the layout;
* `EvenSizes.addrs_mod`: when every block has an even number of words, every block starts at
  the offset of the first modulo `ALIGNMENT`.
-/

namespace SystemsLab
namespace Malloc

/-! ## Layouts -/

/-- The words the blocks `ts` cover. -/
def span : List Tag → Nat
  | [] => 0
  | t :: ts => t.size + span ts

@[simp] theorem span_nil : span [] = 0 := rfl
@[simp] theorem span_cons (t : Tag) (ts : List Tag) : span (t :: ts) = t.size + span ts := rfl
@[simp] theorem span_append : ∀ ts us : List Tag, span (ts ++ us) = span ts + span us
  | [], _ => (Nat.zero_add _).symm
  | t :: ts, us => by simp only [List.cons_append, span_cons, span_append ts, Nat.add_assoc]

theorem lt_two_pow_63 {n : Nat} (h : n < 2 ^ 31) : n < 2 ^ 63 :=
  Nat.lt_of_lt_of_le h (by decide)

/-- Where each block of `ts` starts when they are laid out from `a`. -/
def addrs : Nat → List Tag → List Nat
  | _, [] => []
  | a, t :: ts => a :: addrs (a + wsize * t.size) ts

/-- Where each free block of `ts` starts. -/
def freeAddrs : Nat → List Tag → List Nat
  | _, [] => []
  | a, t :: ts =>
    if t.inuse then freeAddrs (a + wsize * t.size) ts else a :: freeAddrs (a + wsize * t.size) ts

theorem addrs_append : ∀ (a : Nat) (ts us : List Tag),
    addrs a (ts ++ us) = addrs a ts ++ addrs (a + wsize * span ts) us
  | _, [], _ => by simp [addrs]
  | a, t :: ts, us => by
    simp only [List.cons_append, addrs, List.append_eq, addrs_append _ ts, span_cons, Nat.mul_add,
      Nat.add_assoc]

theorem exists_of_mem_addrs : ∀ {a : Nat} {ts : List Tag} {b : Nat}, b ∈ addrs a ts →
    ∃ A u B, ts = A ++ u :: B ∧ b = a + wsize * span A
  | _, [], _, hb => nomatch hb
  | a, t :: ts, b, hb => by
    rcases List.mem_cons.1 hb with rfl | hb
    · exact ⟨[], t, ts, rfl, by simp⟩
    · obtain ⟨A, u, B, rfl, rfl⟩ := exists_of_mem_addrs hb
      exact ⟨t :: A, u, B, rfl, by simp [Nat.mul_add, Nat.add_assoc]⟩

theorem exists_of_mem_freeAddrs : ∀ {a : Nat} {ts : List Tag} {b : Nat}, b ∈ freeAddrs a ts →
    ∃ A u B, ts = A ++ u :: B ∧ b = a + wsize * span A ∧ u.inuse = false
  | _, [], _, hb => nomatch hb
  | a, t :: ts, b, hb => by
    simp only [freeAddrs] at hb
    have hrest : b ∈ freeAddrs (a + wsize * t.size) ts →
        ∃ A u B, t :: ts = A ++ u :: B ∧ b = a + wsize * span A ∧ u.inuse = false := fun hb => by
      obtain ⟨A, u, B, rfl, rfl, hu⟩ := exists_of_mem_freeAddrs hb
      exact ⟨t :: A, u, B, rfl, by simp [Nat.mul_add, Nat.add_assoc], hu⟩
    split at hb
    · exact hrest hb
    · rcases List.mem_cons.1 hb with rfl | hb
      · exact ⟨[], t, ts, rfl, by simp, by simpa using ‹¬t.inuse = true›⟩
      · exact hrest hb

theorem freeAddrs_append : ∀ (a : Nat) (ts us : List Tag),
    freeAddrs a (ts ++ us) = freeAddrs a ts ++ freeAddrs (a + wsize * span ts) us
  | _, [], _ => by simp [freeAddrs]
  | a, t :: ts, us => by
    simp only [List.cons_append, freeAddrs, List.append_eq, freeAddrs_append _ ts, span_cons,
      Nat.mul_add, Nat.add_assoc]
    split <;> rfl

/-- No free block is followed by a free one. -/
def NoFreePair : List Tag → Prop
  | t :: t' :: ts => (t.inuse = true ∨ t'.inuse = true) ∧ NoFreePair (t' :: ts)
  | _ => True

theorem freeAddrs_sub : ∀ {a : Nat} {ts : List Tag}, ∀ b ∈ freeAddrs a ts, b ∈ addrs a ts
  | _, [], _, hb => hb
  | a, t :: ts, b, hb => by
    simp only [freeAddrs] at hb
    split at hb
    · exact List.mem_cons_of_mem _ (freeAddrs_sub b hb)
    · rcases List.mem_cons.1 hb with rfl | hb
      · exact List.mem_cons_self _ _
      · exact List.mem_cons_of_mem _ (freeAddrs_sub b hb)

theorem noFreePair_append : ∀ {xs ys : List Tag},
    NoFreePair (xs ++ ys) ↔ NoFreePair xs ∧ NoFreePair ys ∧
      ∀ x ∈ xs.getLast?, ∀ y ∈ ys.head?, x.inuse = true ∨ y.inuse = true
  | [], _ => by simp [NoFreePair]
  | [x], [] => by simp [NoFreePair]
  | [x], y :: ys => by simp [NoFreePair, and_comm]
  | x :: x' :: xs, ys => by
    rw [List.cons_append, List.cons_append]
    simp only [NoFreePair]
    rw [← List.cons_append, noFreePair_append]
    simp only [List.getLast?_cons_cons, and_assoc]

/-! ## Even blocks -/

/-- Every block of `ts` has an even number of words: laid out one after another, the blocks all
start at one offset modulo `ALIGNMENT`, two words. -/
def EvenSizes (ts : List Tag) : Prop := ∀ t ∈ ts, t.size % 2 = 0

theorem evenSizes_append {ts us : List Tag} :
    EvenSizes (ts ++ us) ↔ EvenSizes ts ∧ EvenSizes us := by
  simp only [EvenSizes, List.mem_append, or_imp, forall_and]

theorem evenSizes_cons {t : Tag} {ts : List Tag} :
    EvenSizes (t :: ts) ↔ t.size % 2 = 0 ∧ EvenSizes ts := by
  simp only [EvenSizes, List.mem_cons, forall_eq_or_imp]

theorem EvenSizes.span_even : ∀ {ts : List Tag}, EvenSizes ts → span ts % 2 = 0
  | [], _ => rfl
  | _ :: _, h => by
    have h1 := (evenSizes_cons.1 h).1
    have h2 := EvenSizes.span_even (evenSizes_cons.1 h).2
    rw [span_cons]
    omega

theorem EvenSizes.merge {L R M : List Tag} {b : Bool} {hlt : span R < 2 ^ 63}
    (h : EvenSizes (L ++ R ++ M)) : EvenSizes (L ++ ⟨b, span R, hlt⟩ :: M) := by
  obtain ⟨⟨hL, hR⟩, hM⟩ := evenSizes_append.1 h |>.imp_left evenSizes_append.1
  exact evenSizes_append.2 ⟨hL, evenSizes_cons.2 ⟨hR.span_even, hM⟩⟩

/-- In a layout of even blocks every block starts at the offset of the first modulo
`ALIGNMENT`. -/
theorem EvenSizes.addrs_mod : ∀ {a : Nat} {ts : List Tag}, EvenSizes ts →
    ∀ b ∈ addrs a ts, b % alignment = a % alignment
  | _, [], _ => nofun
  | a, t :: ts, h => by
    have ht := (evenSizes_cons.1 h).1
    have ih := EvenSizes.addrs_mod (a := a + wsize * t.size) (evenSizes_cons.1 h).2
    rintro b (_ | ⟨_, hb⟩)
    · rfl
    · rw [ih b hb]
      simp only [alignment, wsize]
      omega

namespace Heap

variable (h : Heap)

/-- The blocks `ts` lie one after another from `a`: each has at least `MIN_BLOCK_SIZE_WORDS`
words and its tag in its header and in its footer. -/
def Seg : Nat → List Tag → Prop
  | _, [] => True
  | a, t :: ts => minBlockSizeWords ≤ t.size ∧ h.tag a = t ∧
      h.tag (a + wsize * t.size - wsize) = t ∧ Seg (a + wsize * t.size) ts

theorem seg_append {a : Nat} : ∀ {ts us : List Tag},
    h.Seg a (ts ++ us) ↔ h.Seg a ts ∧ h.Seg (a + wsize * span ts) us
  | [], _ => by simp [Seg]
  | t :: ts, us => by
    simp only [List.cons_append, Seg, List.append_eq, seg_append, span_cons, Nat.mul_add,
      Nat.add_assoc, and_assoc]

theorem tag_congr {h' : Heap} {a : Nat} (hm : ∀ x, a ≤ x → x < a + wsize → h'.mem x = h.mem x) :
    h'.tag a = h.tag a := by
  simp only [tag, readTag]
  exact congrArg _ (readLE_congr hm)

/-- Blocks whose bytes two heaps agree on are laid out the same in both. -/
theorem seg_congr {h' : Heap} : ∀ {a : Nat} {ts : List Tag},
    (∀ x, a ≤ x → x < a + wsize * span ts → h'.mem x = h.mem x) → (h'.Seg a ts ↔ h.Seg a ts)
  | _, [], _ => Iff.rfl
  | a, t :: ts, hm => by
    simp only [Seg]
    refine and_congr_right fun ht => ?_
    simp only [span_cons, Nat.mul_add, minBlockSizeWords, wsize] at hm ht ⊢
    have h1 : h'.tag a = h.tag a :=
      h.tag_congr fun x h1 h2 => hm x h1 (by simp only [wsize] at h2; omega)
    have h2 : h'.tag (a + 8 * t.size - 8) = h.tag (a + 8 * t.size - 8) :=
      h.tag_congr fun x h1 h2 => hm x (by omega) (by simp only [wsize] at h2; omega)
    have h3 : h'.Seg (a + 8 * t.size) ts ↔ h.Seg (a + 8 * t.size) ts :=
      seg_congr fun x h1 h2 => hm x (by omega) (by simp only [wsize] at h2; omega)
    rw [h1, h2, h3]

/-! ## The walk of the blocks -/

/-- The walk passes exactly the blocks of a layout and stops at the tag after them, given
enough steps. -/
theorem blocksFrom_of_seg : ∀ {fuel a : Nat} {ts : List Tag}, h.Seg a ts →
    h.blkSize (a + wsize * span ts) = 0 → ts.length < fuel →
    h.blocksFrom fuel a = some (addrs a ts, a + wsize * span ts)
  | 0, _, _, _, _, hf => absurd hf (Nat.not_lt_zero _)
  | fuel + 1, a, [], _, he, _ => by
    simp only [span_nil, Nat.mul_zero, Nat.add_zero] at he ⊢
    simp only [blocksFrom, he, if_true, addrs]
  | fuel + 1, a, t :: ts, ⟨hmin, ht, _, hs⟩, he, hf => by
    have hne : h.blkSize a ≠ 0 := by
      simp only [blkSize, ht, minBlockSizeWords] at hmin ⊢
      omega
    have hnext : h.nextBlk a = a + wsize * t.size := by simp only [nextBlk, blkSize, ht]
    simp only [span_cons, Nat.mul_add, ← Nat.add_assoc] at he
    simp only [blocksFrom, if_neg hne, hnext,
      blocksFrom_of_seg hs he (Nat.lt_of_succ_lt_succ hf), Option.map_some', addrs, span_cons,
      Nat.mul_add, Nat.add_assoc]

/-- The blocks a walk passes, each with its footer and at least `MIN_BLOCK_SIZE_WORDS` words,
make a layout. -/
theorem seg_of_blocksFrom : ∀ {fuel a : Nat} {bs : List Nat} {e : Nat},
    h.blocksFrom fuel a = some (bs, e) →
    (∀ b ∈ bs, minBlockSizeWords ≤ h.blkSize b ∧ h.tag (h.getFooter b) = h.tag b) →
    h.Seg a (bs.map h.tag) ∧ addrs a (bs.map h.tag) = bs ∧ e = a + wsize * span (bs.map h.tag)
  | 0, _, _, _, w, _ => nomatch w
  | fuel + 1, a, bs, e, w, hb => by
    simp only [blocksFrom] at w
    split at w
    · cases w
      simp [Seg, addrs]
    · obtain ⟨⟨bs', e'⟩, w', hw⟩ := Option.map_eq_some'.1 w
      cases hw
      obtain ⟨hs, ha, he⟩ := seg_of_blocksFrom w' fun b hb' => hb b (List.mem_cons_of_mem _ hb')
      obtain ⟨hmin, hfoot⟩ := hb a (List.mem_cons_self _ _)
      refine ⟨⟨hmin, rfl, hfoot, hs⟩, ?_, ?_⟩
      · simp only [List.map_cons, addrs]
        exact congrArg _ ha
      · simp only [he, List.map_cons, span_cons, nextBlk, blkSize, Nat.mul_add, Nat.add_assoc]

variable {h}

theorem Seg.length_le : ∀ {a : Nat} {ts : List Tag}, h.Seg a ts →
    minBlockSizeWords * ts.length ≤ span ts
  | _, [], _ => Nat.le_refl _
  | _, _ :: _, ⟨hmin, _, _, hs⟩ => by
    simp only [List.length_cons, Nat.mul_succ, span_cons]
    have := Seg.length_le hs
    omega

theorem Seg.forall_addrs : ∀ {a : Nat} {ts : List Tag}, h.Seg a ts →
    ∀ b ∈ addrs a ts, minBlockSizeWords ≤ h.blkSize b ∧ h.tag (h.getFooter b) = h.tag b
  | _, [], _ => nofun
  | a, t :: ts, ⟨hmin, ht, hfoot, hs⟩ => by
    intro b hb
    rcases List.mem_cons.1 hb with rfl | hb
    · simp only [blkSize, getFooter, ht]
      exact ⟨hmin, hfoot⟩
    · exact Seg.forall_addrs hs b hb

theorem Seg.filter_blkFree : ∀ {a : Nat} {ts : List Tag}, h.Seg a ts →
    (addrs a ts).filter h.blkFree = freeAddrs a ts
  | _, [], _ => rfl
  | a, t :: ts, ⟨_, ht, _, hs⟩ => by
    simp only [addrs, freeAddrs, List.filter_cons, blkFree, ht, Seg.filter_blkFree hs]
    cases t.inuse <;> rfl

theorem Seg.noFreePair_iff : ∀ {a : Nat} {ts : List Tag}, h.Seg a ts →
    h.tag (a + wsize * span ts) = fence →
    ((∀ b ∈ addrs a ts, h.blkFree b = true → h.blkFree (h.nextBlk b) = false) ↔ NoFreePair ts)
  | _, [], _, _ => ⟨fun _ => trivial, fun _ _ hb => nomatch hb⟩
  | a, t :: ts, ⟨_, ht, _, hs⟩, he => by
    have hnext : h.nextBlk a = a + wsize * t.size := by simp only [nextBlk, blkSize, ht]
    simp only [span_cons, Nat.mul_add, ← Nat.add_assoc] at he
    have ih := Seg.noFreePair_iff hs he
    simp only [addrs, List.forall_mem_cons, hnext]
    cases ts with
    | nil =>
      simp only [span_nil, Nat.mul_zero, Nat.add_zero] at he
      simp [blkFree, he, fence, NoFreePair, addrs]
    | cons t' ts =>
      rw [ih]
      simp only [NoFreePair, blkFree, ht, hs.2.1]
      refine and_congr_left' ?_
      cases t.inuse <;> cases t'.inuse <;> decide

theorem Seg.replace {h' : Heap} {a : Nat} {ts₁ mid mid' ts₂ : List Tag}
    (hs : h.Seg a (ts₁ ++ mid ++ ts₂)) (hspan : span mid' = span mid)
    (hmid : h'.Seg (a + wsize * span ts₁) mid')
    (hm : ∀ x, x < a + wsize * span ts₁ ∨ a + wsize * span ts₁ + wsize * span mid ≤ x →
      h'.mem x = h.mem x) :
    h'.Seg a (ts₁ ++ mid' ++ ts₂) := by
  rw [seg_append, seg_append] at hs ⊢
  refine ⟨⟨(h.seg_congr fun x _ h2 => hm x (.inl h2)).2 hs.1.1, hmid⟩, ?_⟩
  rw [span_append, hspan, ← span_append]
  refine (h.seg_congr fun x h1 _ => hm x (.inr ?_)).2 hs.2
  simp only [span_append, Nat.mul_add, ← Nat.add_assoc] at h1
  exact h1

theorem Seg.tag_last {a : Nat} {ts : List Tag} {p : Tag} (hs : h.Seg a (ts ++ [p])) :
    h.tag (a + wsize * span (ts ++ [p]) - wsize) = p := by
  obtain ⟨-, ⟨-, -, hfoot, -⟩⟩ := (h.seg_append).1 hs
  simpa only [span_append, span_cons, span_nil, Nat.add_zero, Nat.mul_add, Nat.add_assoc]
    using hfoot

theorem Seg.addrs_bounds : ∀ {a : Nat} {ts : List Tag}, h.Seg a ts →
    ∀ b ∈ addrs a ts, a ≤ b ∧ b + wsize * minBlockSizeWords ≤ a + wsize * span ts
  | _, [], _ => nofun
  | a, t :: ts, ⟨hmin, _, _, hs⟩ => by
    intro b hb
    simp only [span_cons, Nat.mul_add, minBlockSizeWords, wsize] at hmin ⊢
    rcases List.mem_cons.1 hb with rfl | hb
    · have := Nat.zero_le (span ts)
      omega
    · have := Seg.addrs_bounds hs b hb
      simp only [minBlockSizeWords, wsize] at this
      omega

theorem Seg.block_bounds : ∀ {a : Nat} {ts : List Tag}, h.Seg a ts →
    ∀ b ∈ addrs a ts, a ≤ b ∧ b + wsize * (h.tag b).size ≤ a + wsize * span ts
  | _, [], _ => nofun
  | a, t :: ts, ⟨_, ht, _, hs⟩ => by
    rintro b (_ | ⟨_, hb⟩)
    · rw [ht, span_cons, Nat.mul_add]
      omega
    · have := Seg.block_bounds hs b hb
      rw [span_cons, Nat.mul_add]
      omega

theorem Seg.disjoint : ∀ {a : Nat} {ts : List Tag}, h.Seg a ts → ∀ b ∈ addrs a ts,
    ∀ b' ∈ addrs a ts, b ≠ b' →
      b + wsize * (h.tag b).size ≤ b' ∨ b' + wsize * (h.tag b').size ≤ b
  | _, [], _ => nofun
  | _, _ :: _, ⟨_, ht, _, hs⟩ => by
    rintro b (_ | ⟨_, hb⟩) b' (_ | ⟨_, hb'⟩) hne
    · exact absurd rfl hne
    · exact .inl (ht ▸ (hs.block_bounds b' hb').1)
    · exact .inr (ht ▸ (hs.block_bounds b hb).1)
    · exact Seg.disjoint hs b hb b' hb' hne

theorem Seg.nodup_freeAddrs : ∀ {a : Nat} {ts : List Tag}, h.Seg a ts → (freeAddrs a ts).Nodup
  | _, [], _ => List.nodup_nil
  | a, t :: ts, ⟨hmin, _, _, hs⟩ => by
    simp only [freeAddrs]
    split
    · exact Seg.nodup_freeAddrs hs
    · refine List.nodup_cons.2 ⟨fun ha => ?_, Seg.nodup_freeAddrs hs⟩
      have := (hs.addrs_bounds a (freeAddrs_sub a ha)).1
      simp only [minBlockSizeWords, wsize] at hmin this
      omega

theorem setHeaderAndFooter_seg {blk size : Nat} {inuse : Bool} (h8 : minBlockSizeWords ≤ size)
    (hs : size < 2 ^ 31) :
    (h.setHeaderAndFooter blk size inuse).Seg blk [⟨inuse, size, lt_two_pow_63 hs⟩] := by
  simp only [minBlockSizeWords] at h8
  obtain ⟨hhead, -, hfoot, -⟩ := @setHeaderAndFooter_spec h blk size inuse (by omega) hs
  exact ⟨by simp only [minBlockSizeWords]; omega, hhead, hfoot, trivial⟩

/-! ## The invariant, block by block -/

end Heap

/-- Every block on a list is at least its `list_size` and sits on the list of the largest
`list_size` it reaches, when the blocks have the sizes `sz`. -/
def SizeClassed (ls : List FreeList) (sz : Nat → Nat) : Prop :=
  ∀ l ∈ ls, ∀ b ∈ l.blocks, l.listSize ≤ sz b ∧
    ∀ l' ∈ ls, l'.listSize ≤ sz b → l'.listSize ≤ l.listSize

/-- The lists hold the blocks `fs`, each as often as `fs` has it, each on the list of its size
class. -/
structure Listed (ls : List FreeList) (fs : List Nat) (sz : Nat → Nat) : Prop where
  perm : (ls.map FreeList.blocks).flatten.Perm fs
  size_class : SizeClassed ls sz

theorem exists_listSize_of_map_eq {ls ls' : List FreeList}
    (hsizes : ls'.map FreeList.listSize = ls.map FreeList.listSize) {l' : FreeList}
    (hl' : l' ∈ ls') : ∃ l ∈ ls, l.listSize = l'.listSize :=
  List.mem_map.1 (hsizes ▸ List.mem_map_of_mem _ hl')

theorem SizeClassed.entry {ls ls' : List FreeList} {sz : Nat → Nat} (hc : SizeClassed ls sz)
    (hsizes : ls'.map FreeList.listSize = ls.map FreeList.listSize) {l' : FreeList} {b : Nat}
    (hent : ∃ l ∈ ls, l.listSize = l'.listSize ∧ b ∈ l.blocks) :
    l'.listSize ≤ sz b ∧ ∀ l'' ∈ ls', l''.listSize ≤ sz b → l''.listSize ≤ l'.listSize := by
  obtain ⟨l, hl, hsz, hb⟩ := hent
  obtain ⟨h1, h2⟩ := hc l hl b hb
  refine ⟨hsz ▸ h1, fun l'' hl'' hle => ?_⟩
  obtain ⟨l3, hl3, h3⟩ := exists_listSize_of_map_eq hsizes hl''
  rw [← hsz, ← h3]
  exact h2 l3 hl3 (h3 ▸ hle)

namespace Listed

variable {ls : List FreeList} {fs : List Nat} {sz : Nat → Nat}

theorem mem (hl : Listed ls fs sz) {l : FreeList} (hl' : l ∈ ls) {b : Nat} (hb : b ∈ l.blocks) :
    b ∈ fs :=
  hl.perm.subset (List.mem_flatten.2 ⟨l.blocks, List.mem_map_of_mem _ hl', hb⟩)

theorem of_perm (hl : Listed ls fs sz) {fs' : List Nat} (hp : fs.Perm fs') : Listed ls fs' sz :=
  ⟨hl.perm.trans hp, hl.size_class⟩

theorem congr (hl : Listed ls fs sz) {sz' : Nat → Nat} (hsz : ∀ b ∈ fs, sz' b = sz b) :
    Listed ls fs sz' :=
  ⟨hl.perm, fun l hl' b hb => by rw [hsz b (hl.mem hl' hb)]; exact hl.size_class l hl' b hb⟩

theorem remove {xs ys : List Nat} {b : Nat} (hl : Listed ls (xs ++ b :: ys) sz) (hb : b ∉ xs) :
    ∃ ls', listRemove b ls = some ls' ∧
      ls'.map FreeList.listSize = ls.map FreeList.listSize ∧ Listed ls' (xs ++ ys) sz := by
  obtain ⟨ls', e⟩ :=
    listRemove_isSome (hl.perm.symm.subset (List.mem_append_right _ (List.mem_cons_self _ _)))
  have hsizes := listRemove_listSize e
  refine ⟨ls', e, hsizes, ?_,
    fun l' hl' c hc => hl.size_class.entry hsizes (listRemove_entries e l' hl' c hc)⟩
  have := hl.perm.erase b
  rwa [List.erase_append_right _ hb, List.erase_cons_head, ← listRemove_flatten e] at this

theorem push (hl : Listed ls fs sz) (hsort : (ls.map FreeList.listSize).Pairwise (· > ·))
    {b : Nat} (hex : ∃ l ∈ ls, l.listSize ≤ sz b) :
    Listed (pushFirstFit (sz b) b ls) (b :: fs) sz := by
  refine ⟨(pushFirstFit_flatten _ b hex).trans (hl.perm.cons b), fun l' hl' c hc => ?_⟩
  rcases pushFirstFit_entries (sz b) b hsort l' hl' c hc with hent | ⟨rfl, hle, hmax⟩
  · exact hl.size_class.entry (pushFirstFit_listSize _ _ _) hent
  · refine ⟨hle, fun l'' hl'' hle'' => ?_⟩
    obtain ⟨l3, hl3, h3⟩ := exists_listSize_of_map_eq (pushFirstFit_listSize _ _ _) hl''
    exact h3 ▸ hmax l3 hl3 (h3 ▸ hle'')

end Listed

namespace Heap

variable (h : Heap)

/-- The bytes of `Heap.Inv`: the prologue, the blocks `ts` laid out from `heap_listp`, and the
epilogue just below the break. -/
structure Framed (ts : List Tag) : Prop where
  prologue : h.tag (prevBlkFooter h.heapListp) = fence
  seg : h.Seg h.heapListp ts
  brk_eq : h.brk = h.heapListp + wsize * span ts + wsize
  epilogue : h.tag (h.heapListp + wsize * span ts) = fence

/-- `Heap.Inv` with the blocks given by their tags `ts`, front to back. -/
structure Tiling (ts : List Tag) : Prop where
  framed : h.Framed ts
  no_free_pair : NoFreePair ts
  listed : Listed h.lists (freeAddrs h.heapListp ts) h.blkSize

@[simp] theorem framed_lists (ls : List FreeList) (ts : List Tag) :
    ({ h with lists := ls } : Heap).Framed ts ↔ h.Framed ts :=
  have hseg := @seg_congr h { h with lists := ls } h.heapListp ts fun _ _ _ => rfl
  ⟨fun ⟨a, b, c, d⟩ => ⟨a, hseg.1 b, c, d⟩, fun ⟨a, b, c, d⟩ => ⟨a, hseg.2 b, c, d⟩⟩

@[simp] theorem tag_lists (ls : List FreeList) (a : Nat) :
    ({ h with lists := ls } : Heap).tag a = h.tag a := rfl
@[simp] theorem blkSize_lists (ls : List FreeList) (a : Nat) :
    ({ h with lists := ls } : Heap).blkSize a = h.blkSize a := rfl

/-- On a heap that `mm_init` set up, the invariant says that the blocks make a layout with the
free ones on the lists. -/
theorem inv_iff_tiling (hs : h.Shaped) {bs : List Nat} :
    h.Inv bs ↔ ∃ ts, h.Tiling ts ∧ bs = addrs h.heapListp ts := by
  constructor
  · intro hi
    obtain ⟨hseg, ha, he⟩ :=
      h.seg_of_blocksFrom hi.tiled fun b hb => ⟨hi.min_size b hb, hi.footer b hb⟩
    have hle := hi.heapListp_le
    have hp := hs.2
    have hbrk : h.brk = h.heapListp + wsize * span (bs.map h.tag) + wsize := by
      simp only [wsize] at *
      omega
    have hep : h.tag (h.heapListp + wsize * span (bs.map h.tag)) = fence := he ▸ hi.epilogue
    refine ⟨bs.map h.tag, ⟨⟨hi.prologue, hseg, hbrk, hep⟩, ?_, ?_, hi.size_class⟩, ha.symm⟩
    · exact (hseg.noFreePair_iff hep).1 (by rw [ha]; exact hi.no_free_pair)
    · rw [← hseg.filter_blkFree, ha]
      exact hi.listed
  · rintro ⟨ts, ⟨⟨hpro, hseg, hbrk, hep⟩, hnf, hl⟩, rfl⟩
    have hlen := hseg.length_le
    have hend : h.brk - wsize = h.heapListp + wsize * span ts := by
      simp only [wsize] at *
      omega
    refine ⟨hpro, ?_, hend ▸ hep, fun b hb => (hseg.forall_addrs b hb).2,
      fun b hb => (hseg.forall_addrs b hb).1, (hseg.noFreePair_iff hep).2 hnf, ?_, hl.size_class⟩
    · rw [hend]
      refine h.blocksFrom_of_seg hseg (by simp only [blkSize, hep]; rfl) ?_
      simp only [hbrk, minBlockSizeWords, wsize] at hlen ⊢
      omega
    · rw [hseg.filter_blkFree]
      exact hl.perm

variable {h}

theorem Inv.addrs_eq (hs : h.Shaped) {bs : List Nat} {ts : List Tag} (hi : h.Inv bs)
    (ht : h.Tiling ts) : bs = addrs h.heapListp ts := by
  have h2 := ((inv_iff_tiling h hs).2 ⟨ts, ht, rfl⟩).tiled
  rw [hi.tiled, Option.some.injEq, Prod.mk.injEq] at h2
  exact h2.1

theorem Framed.replace {h' : Heap} {A R R' B : List Tag} (hf : h.Framed (A ++ R ++ B))
    (hs : h.Shaped) (hp : h'.heapListp = h.heapListp) (hb : h'.brk = h.brk)
    (hspan : span R' = span R) (hR : h'.Seg (h.heapListp + wsize * span A) R')
    (hm : ∀ x, x < h.heapListp + wsize * span A ∨
      h.heapListp + wsize * span A + wsize * span R ≤ x → h'.mem x = h.mem x) :
    h'.Framed (A ++ R' ++ B) := by
  have hlen : span (A ++ R' ++ B) = span (A ++ R ++ B) := by simp only [span_append, hspan]
  have hp8 := hs.2
  refine ⟨?_, hp ▸ hf.seg.replace hspan hR hm, by rw [hb, hf.brk_eq, hp, hlen], ?_⟩
  · rw [hp, ← hf.prologue]
    refine h.tag_congr fun x _ h2 => hm x (.inl ?_)
    simp only [prevBlkFooter, wsize] at h2 hp8 ⊢
    omega
  · rw [hp, hlen, ← hf.epilogue]
    refine h.tag_congr fun x h1 _ => hm x (.inr ?_)
    simp only [span_append, Nat.mul_add] at h1
    omega

theorem Framed.setHeaderAndFooter {A R B : List Tag} (hf : h.Framed (A ++ R ++ B)) (hs : h.Shaped)
    (h8 : minBlockSizeWords ≤ span R) (h31 : span R < 2 ^ 31) (inuse : Bool) :
    (h.setHeaderAndFooter (h.heapListp + wsize * span A) (span R) inuse).Framed
      (A ++ [⟨inuse, span R, lt_two_pow_63 h31⟩] ++ B) :=
  hf.replace hs rfl rfl (by simp) (h.setHeaderAndFooter_seg h8 h31) fun _ hx =>
    h.setHeaderAndFooter_mem (by simp only [minBlockSizeWords] at h8; omega) h31 hx

theorem Framed.tag_before {A ts : List Tag} (hf : h.Framed (A ++ ts)) :
    h.tag (prevBlkFooter (h.heapListp + wsize * span A)) = A.getLast?.getD fence := by
  rcases A.eq_nil_or_concat with rfl | ⟨A', p, rfl⟩
  · exact hf.prologue
  · rw [List.concat_eq_append] at hf ⊢
    simpa using ((h.seg_append).1 hf.seg).1.tag_last

theorem Framed.tag_after {ts B : List Tag} (hf : h.Framed (ts ++ B)) :
    h.tag (h.heapListp + wsize * span ts) = B.head?.getD fence := by
  cases B with
  | nil => simpa using hf.epilogue
  | cons n B => exact ((h.seg_append).1 hf.seg).2.2.1

end Heap

end Malloc
end SystemsLab
