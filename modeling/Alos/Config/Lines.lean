import Mathlib.Tactic.Common
import Mathlib.Data.List.DropRight

/-!
# 行からなる file（`config/config.c`）

設定の file は、先頭から一度に書かれ、先頭から一度に読まれて行に分けられる。`VFS_O_TRUNC` で開いても、
`ext2_vfs_open` は flag を使わないので、前の中身の残りは消えない。
-/

namespace Alos.Config

/-- ASCII の text の byte。 -/
def ascii (text : String) : List UInt8 := text.toList.map fun c => UInt8.ofNat c.toNat

/-! ## 行 -/

/-- 読む側のループの分ける行。改行と NUL で分け、終わりも行の終わりである。 -/
def lines (content : List UInt8) : List (List UInt8) := content.splitOnP fun b => b == 10 || b == 0

/-- 行ごとに改行を付けて並べる。 -/
def unlines (ls : List (List UInt8)) : List UInt8 := ls.flatMap (· ++ [10])

/-- 改行も NUL もない行。 -/
def Plain (line : List UInt8) : Prop := ∀ b ∈ line, b ≠ 10 ∧ b ≠ 0

instance (line : List UInt8) : Decidable (Plain line) :=
  List.decidableBAll (fun b => b ≠ 10 ∧ b ≠ 0) line

@[simp] theorem unlines_nil : unlines [] = [] := rfl

@[simp] theorem unlines_cons {l : List UInt8} {ls : List (List UInt8)} :
    unlines (l :: ls) = l ++ 10 :: unlines ls := by
  simp [unlines]

/-- **書いた行は、続く残りの行の前に読める。** -/
theorem lines_unlines {ls : List (List UInt8)} (h : ∀ l ∈ ls, Plain l) {rest : List UInt8} :
    lines (unlines ls ++ rest) = ls ++ lines rest := by
  induction ls with
  | nil => rfl
  | cons l ls ih =>
    have hl : ∀ b ∈ l, (b == 10 || b == 0) = false := fun b hb => by
      have := h l List.mem_cons_self b hb
      simp [this.1, this.2]
    rw [unlines_cons, List.append_assoc, List.cons_append, lines,
      List.splitOnP_append_cons_of_forall_mem hl 10 rfl]
    exact congrArg _ (ih fun l' hl' => h l' (List.mem_cons_of_mem _ hl'))

/-! ## 保存 -/

/-- 保存の間の VFS の結果。書けなかったときに残る中身は分からない。 -/
structure Medium where
  creates : Bool
  written : Int
  left : List UInt8

/-- 位置 `off` に `data` を書いた後の中身。終わりを越えた位置に書くと、間は 0 になる。 -/
def writeAt (content : List UInt8) (off : Nat) (data : List UInt8) : List UInt8 :=
  content.take off ++ List.replicate (off - content.length) 0 ++ data ++
    content.drop (off + data.length)

theorem writeAt_zero {content data : List UInt8} :
    writeAt content 0 data = data ++ content.drop data.length := by
  simp [writeAt]

/-- 先頭から書く。全体を書けなければ `-1` である。 -/
def writeText (content text : List UInt8) (m : Medium) : Int × Option (List UInt8) :=
  if m.written = text.length then (0, some (writeAt content 0 text)) else (-1, some m.left)

/-- `vfs_open`、`vfs_create`、`vfs_write`。`none` は file がないことである。 -/
def saveText (file : Option (List UInt8)) (text : List UInt8) (m : Medium) :
    Int × Option (List UInt8) :=
  match file with
  | none => if m.creates then writeText [] text m else (-1, none)
  | some content => writeText content text m

/-- 成功した保存の後は、書いたものに前の残りが続く。 -/
theorem saveText_ok {file : Option (List UInt8)} {text : List UInt8} {m : Medium}
    (h : (saveText file text m).1 = 0) :
    (saveText file text m).2 = some (text ++ (file.getD []).drop text.length) := by
  have hwrite : ∀ content, (writeText content text m).1 = 0 →
      (writeText content text m).2 = some (text ++ content.drop text.length) := by
    intro content h
    unfold writeText at h ⊢
    split at h
    · rename_i hw
      rw [if_pos hw, writeAt_zero]
    · exact absurd (show (-1 : Int) = 0 from h) (by decide)
  cases file with
  | none =>
    unfold saveText at h ⊢
    dsimp only at h ⊢
    split at h
    · rename_i hc
      rw [if_pos hc]
      exact hwrite [] h
    · exact absurd h (by decide)
  | some content => exact hwrite _ h

end Alos.Config
