import Alos.Lib.Bytes

/-!
# 固定長の block に分けたメモリ

番地 `a` は block `a / bs` の `a % bs` 番目の byte である。
-/

namespace Alos.Bytes

variable {bs : Nat} {m m' m'' : Mem}
variable {a b x b' off n : Nat} {S : Nat → Prop}
variable {buf buf' : Mem}

/-- block `b` の中身。 -/
def blockAt (bs : Nat) (m : Mem) (b : Nat) : Mem := fun x => m (b * bs + x)

/-- block `b` の中身を `buf` にする。 -/
def putBlock (bs : Nat) (m : Mem) (b : Nat) (buf : Mem) : Mem := blit m (b * bs) buf 0 bs

theorem mem_block_iff (hbs : 0 < bs) : a / bs = b ↔ b * bs ≤ a ∧ a < b * bs + bs := by
  rw [Nat.div_eq_iff hbs]
  omega

theorem block_div (hbs : 0 < bs) (hx : x < bs) : (b * bs + x) / bs = b :=
  (mem_block_iff hbs).mpr ⟨Nat.le_add_right _ _, by omega⟩

theorem putBlock_apply (hbs : 0 < bs) :
    putBlock bs m b buf a = if a / bs = b then buf (a % bs) else m a := by
  unfold putBlock
  by_cases h : a / bs = b
  · obtain ⟨h1, h2⟩ := (mem_block_iff hbs).mp h
    have hmod : a % bs = a - b * bs := by
      rw [Nat.mod_def, h, Nat.mul_comm]
    rw [if_pos h, blit_apply_of_mem h1 h2, Nat.zero_add, hmod]
  · rw [if_neg h, blit_apply_of_not]
    by_contra hc
    exact h ((mem_block_iff hbs).mpr (by omega))

theorem blockAt_putBlock_self (hx : x < bs) : blockAt bs (putBlock bs m b buf) b x = buf x := by
  unfold blockAt putBlock
  rw [blit_apply_of_mem (by omega) (by omega)]
  congr 1
  omega

theorem blockAt_putBlock_ne (h : b' ≠ b) (hx : x < bs) :
    blockAt bs (putBlock bs m b buf) b' x = blockAt bs m b' x := by
  unfold blockAt
  rw [putBlock_apply (by omega), block_div (by omega) hx, if_neg h]

/-- block の中の整数は、disk の番地で読んでも同じである。 -/
theorem load_blockAt : ∀ (n x : Nat), load (blockAt bs m b) x n = load m (b * bs + x) n := by
  intro n
  induction n with
  | zero => intro x; rfl
  | succ n ih =>
    intro x
    simp only [load, ih _]
    rfl

/-- 異なる block への書き込みは、順序によらない。 -/
theorem putBlock_comm (hbs : 0 < bs) (h : b ≠ b') :
    putBlock bs (putBlock bs m b buf) b' buf' = putBlock bs (putBlock bs m b' buf') b buf := by
  funext a
  simp only [putBlock_apply hbs]
  split
  · rename_i h1
    rw [if_neg (fun h2 => h (h2.symm.trans h1))]
  · rfl

/-- 元の中身を書き戻すと、元に戻る。 -/
theorem putBlock_restore (hbs : 0 < bs) (h : ∀ x < bs, buf x = blockAt bs m b x) :
    putBlock bs (putBlock bs m b buf') b buf = m := by
  funext a
  rw [putBlock_apply hbs, putBlock_apply hbs]
  split
  · rename_i ha
    subst ha
    rw [h _ (Nat.mod_lt _ hbs), blockAt, Nat.div_add_mod']
  · rfl

/-- block を読み、一部を書き換えて書き戻すのは、その部分だけを書くのと同じである。 -/
theorem putBlock_patch {src : Mem} {srcOff : Nat} (h : off + n ≤ bs) :
    putBlock bs m b (blit (blit buf 0 m (b * bs) bs) off src srcOff n)
      = blit m (b * bs + off) src srcOff n := by
  funext a
  unfold putBlock
  by_cases hin : b * bs ≤ a ∧ a < b * bs + bs
  · rw [blit_apply_of_mem hin.1 hin.2]
    by_cases hpart : b * bs + off ≤ a ∧ a < b * bs + off + n
    · rw [blit_apply_of_mem hpart.1 hpart.2, blit_apply_of_mem (by omega) (by omega)]
      congr 1
      omega
    · rw [blit_apply_of_not (by omega), blit_apply_of_mem (by omega) (by omega),
        blit_apply_of_not (by omega)]
      congr 1
      omega
  · rw [blit_apply_of_not (by omega), blit_apply_of_not (by omega)]

/-! ## block の外が変わらないこと -/

/-- `m'` と `m` の違いは、`S` の block の中だけにある。 -/
def OnlyBlocks (bs : Nat) (m m' : Mem) (S : Nat → Prop) : Prop := ∀ a, m' a ≠ m a → S (a / bs)

namespace OnlyBlocks

theorem refl : OnlyBlocks bs m m S :=
  fun _ h => absurd rfl h

theorem trans (h1 : OnlyBlocks bs m m' S) (h2 : OnlyBlocks bs m' m'' S) :
    OnlyBlocks bs m m'' S := by
  intro a ha
  by_cases h : m' a = m a
  · exact h2 a (by rwa [h])
  · exact h1 a h

theorem mono {T : Nat → Prop} (h : OnlyBlocks bs m m' S) (hST : ∀ b, S b → T b) :
    OnlyBlocks bs m m' T :=
  fun a ha => hST _ (h a ha)

theorem apply (h : OnlyBlocks bs m m' S) (ha : ¬S (a / bs)) : m' a = m a := by
  by_contra hc
  exact ha (h a hc)

theorem blockAt_eq (h : OnlyBlocks bs m m' S) (hb : ¬S b)
    (hx : x < bs) : blockAt bs m' b x = blockAt bs m b x :=
  h.apply (by rwa [block_div (by omega) hx])

end OnlyBlocks

theorem onlyBlocks_putBlock (hbs : 0 < bs) : OnlyBlocks bs m (putBlock bs m b buf) (· = b) := by
  intro a ha
  rw [putBlock_apply hbs] at ha
  by_contra hc
  exact ha (if_neg hc)

/-- 一つの block に収まる書き込みは、その block だけを変える。 -/
theorem onlyBlocks_blit (src : Mem) (srcOff : Nat) (h : off + n ≤ bs) :
    OnlyBlocks bs m (blit m (b * bs + off) src srcOff n) (· = b) := by
  intro a ha
  by_cases hin : b * bs + off ≤ a ∧ a < b * bs + off + n
  · exact (mem_block_iff (by omega)).mpr (by omega)
  · exact absurd (blit_apply_of_not (by omega)) ha

end Alos.Bytes
