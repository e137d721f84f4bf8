import Alos.Config.Lines
import Alos.Lib.Ring

/-!
# shell の履歴の保存と読み込み（`shell/shell.c`、`config/config.c`）

履歴は 16 行の環状の buffer にあり、古い順に一行ずつ file に書かれる。file は切り詰められず、空の履歴は
書かれないので、前の file の残りが履歴として読まれることがある。

* `chronological_add` — 行は末尾に加わり、一杯なら最も古い行が消える
* `configLoadHistory_saved` — 読み戻せるのは、前の file の残りに行がないとき、そのときに限る
* `configLoadHistory_leftover` — 前の行の残りが読まれる
-/

namespace Alos.Config

open List

variable {ls : List (List UInt8)}

/-! ## 履歴 -/

def shellHistorySize : Nat := 16

def shellLineMax : Nat := 256

/-- `history`、`history_count`、`history_index`。満ちるまでは先頭から並ぶ。 -/
structure History where
  buf : Nat → List UInt8
  count : Nat
  index : Nat
  count_le : count ≤ shellHistorySize
  index_lt : index < shellHistorySize
  index_eq : count < shellHistorySize → index = count

namespace History

/-- `shell_save_history` の `start_index`。 -/
def startIndex (h : History) : Nat := if shellHistorySize ≤ h.count then h.index else 0

/-- 古い方から読む環状の buffer とみる。 -/
def ring (h : History) : Ring (List UInt8) shellHistorySize where
  buf := h.buf
  head := h.index
  tail := h.startIndex
  count := h.count
  tail_lt := by
    unfold startIndex
    split
    · exact h.index_lt
    · decide
  count_le := h.count_le
  head_eq := by
    unfold startIndex
    split
    · rename_i hfull
      rw [Nat.le_antisymm h.count_le hfull, Nat.add_mod_right, Nat.mod_eq_of_lt h.index_lt]
    · rename_i hroom
      rw [Nat.zero_add, Nat.mod_eq_of_lt (Nat.not_le.mp hroom), h.index_eq (Nat.not_le.mp hroom)]

/-- 古い順の行。 -/
def chronological (h : History) : List (List UInt8) := h.ring.contents

/-- 次に書くところに置いて進む。 -/
def put (h : History) (line : List UInt8) : History where
  buf := Function.update h.buf h.index (line.take (shellLineMax - 1))
  count := if h.count < shellHistorySize then h.count + 1 else h.count
  index := (h.index + 1) % shellHistorySize
  count_le := by
    split
    · rename_i hroom
      exact hroom
    · exact h.count_le
  index_lt := Nat.mod_lt _ (by decide)
  index_eq := by
    split
    · rename_i hroom
      intro hlt
      rw [h.index_eq hroom, Nat.mod_eq_of_lt hlt]
    · exact fun hlt => absurd hlt ‹_›

/-- `history_add`。空の行と、直前と同じ行は加えない。 -/
def add (h : History) (line : List UInt8) : History :=
  if line = [] then h
  else if 0 < h.count ∧ h.buf ((h.index + shellHistorySize - 1) % shellHistorySize) = line then h
  else h.put line

section

variable (h : History) {line : List UInt8}

theorem chronological_put : (h.put line).chronological =
    (if h.count < shellHistorySize then h.chronological else h.chronological.tail) ++
      [line.take (shellLineMax - 1)] := by
  have hring : ∀ r : Ring (List UInt8) shellHistorySize, r.count < shellHistorySize →
      r.buf = h.buf → r.head = h.index → (h.put line).startIndex = r.tail →
      (h.put line).count = r.count + 1 →
      (h.put line).chronological = r.contents ++ [line.take (shellLineMax - 1)] := by
    intro r hroom hbuf hhead htail hcount
    rw [← r.contents_push hroom, Ring.push, dif_pos hroom]
    refine Ring.contents_congr ?_ htail hcount
    show Function.update _ _ _ = Function.update _ _ _
    rw [hbuf, hhead]
  split
  · -- 満ちるまでは、先頭から並ぶ
    rename_i hroom
    refine hring h.ring hroom rfl rfl ?_ (if_pos hroom)
    have hindex := h.index_eq hroom
    show startIndex _ = startIndex _
    simp only [startIndex, put, if_pos hroom]
    unfold shellHistorySize at *
    split <;> split <;> omega
  · rename_i hfull
    have hcount : h.count = shellHistorySize := Nat.le_antisymm h.count_le (Nat.not_lt.mp hfull)
    have hpos : 0 < h.ring.count := by
      show 0 < h.count
      rw [hcount]
      decide
    rw [chronological, chronological, h.ring.contents_pop hpos, tail_cons, ← chronological]
    apply hring <;> rw [Ring.pop, dif_pos hpos]
    · exact (show h.count - 1 < _ by rw [hcount]; decide)
    · rfl
    · rfl
    · show startIndex _ = (startIndex _ + 1) % _
      simp only [startIndex, put, if_neg hfull, if_pos (Nat.not_lt.mp hfull)]
    · exact (if_neg hfull).trans (Nat.sub_add_cancel hpos).symm

theorem getLast?_chronological : h.chronological.getLast? = some line ↔
    0 < h.count ∧ h.buf ((h.index + shellHistorySize - 1) % shellHistorySize) = line := by
  rcases Nat.eq_zero_or_pos h.count with h0 | hpos
  · have hnil : h.chronological = [] := length_eq_zero_iff.mp ((Ring.length_contents _).trans h0)
    simp [hnil, h0]
  · rw [chronological, h.ring.getLast?_contents hpos, Option.some.injEq]
    exact (and_iff_right hpos).symm

/-- **空の行と直前と同じ行のほかは、末尾に加わる。一杯なら最も古い行が消える。** -/
theorem chronological_add : (h.add line).chronological =
    if line = [] ∨ h.chronological.getLast? = some line then h.chronological
    else (if h.count < shellHistorySize then h.chronological else h.chronological.tail) ++
      [line.take (shellLineMax - 1)] := by
  simp only [getLast?_chronological, add]
  split
  · rename_i hnil
    rw [if_pos (.inl hnil)]
  rename_i hnil
  split
  · rename_i hlast
    rw [if_pos (.inr hlast)]
  · rename_i hlast
    rw [if_neg (not_or.mpr ⟨hnil, hlast⟩), chronological_put]

end

end History

/-! ## text -/

/-- `buffer` の大きさから 1 を引いたもの。 -/
def historyMax : Nat := 8191

/-- 一行を加える。入らない行と空の行は飛ばす。 -/
def appendLine (buffer line : List UInt8) : List UInt8 :=
  if historyMax ≤ buffer.length then buffer
  else if 0 < line.length ∧ buffer.length + line.length + 1 < historyMax then buffer ++ line ++ [10]
  else buffer

/-- `config_save_history` のループ。 -/
def historyText (history : Nat → List UInt8) (count startIndex : Nat) : List UInt8 :=
  (List.range count).foldl
    (fun buffer i => appendLine buffer (history ((startIndex + i) % shellHistorySize))) []

/-- 空の履歴は書かない。 -/
def configSaveHistory (file : Option (List UInt8)) (history : Nat → List UInt8)
    (count startIndex : Nat)
    (m : Medium) : Int × Option (List UInt8) :=
  if count = 0 then (0, file) else saveText file (historyText history count startIndex) m

def shellSaveHistory (file : Option (List UInt8)) (h : History) (m : Medium) :
    Int × Option (List UInt8) :=
  configSaveHistory file h.buf h.count h.startIndex m

/-- 空の行と長すぎる行は読み飛ばし、`maxEntries` 行で止まる。 -/
def configLoadHistory (file : Option (List UInt8)) (maxEntries lineMax : Nat) : List (List UInt8) :=
  match file with
  | none => []
  | some content =>
    ((lines (content.take historyMax)).filter fun l => 0 < l.length ∧ l.length < lineMax).take
      maxEntries

/-- 履歴の一行。空でなく、改行も NUL もなく、`char[256]` に入る。 -/
structure IsLine (line : List UInt8) : Prop where
  ne_nil : line ≠ []
  plain : Plain line
  short : line.length < shellLineMax

theorem foldl_appendLine {buffer : List UInt8} (hls : ∀ l ∈ ls, IsLine l)
    (hroom : buffer.length + shellLineMax * ls.length + 1 < historyMax) :
    ls.foldl appendLine buffer = buffer ++ unlines ls := by
  induction ls generalizing buffer with
  | nil => rw [foldl_nil, unlines_nil, append_nil]
  | cons l ls ih =>
    have hl := hls l mem_cons_self
    have hpos := length_pos_iff.mpr hl.ne_nil
    have hshort : l.length + 1 ≤ shellLineMax := hl.short
    rw [length_cons, Nat.mul_succ] at hroom
    have happend : appendLine buffer l = buffer ++ l ++ [10] := by
      unfold appendLine
      rw [if_neg (by omega), if_pos ⟨hpos, by omega⟩]
    rw [foldl_cons, happend, ih (fun l' hl' => hls l' (mem_cons_of_mem _ hl')), unlines_cons]
    · simp only [append_assoc, cons_append, nil_append]
    · simp only [length_append, length_cons, length_nil]
      omega

/-- **書かれる text は、古い順の行である。** -/
theorem historyText_eq {h : History} (hlines : ∀ l ∈ h.chronological, IsLine l) :
    historyText h.buf h.count h.startIndex = unlines h.chronological := by
  have hfold : historyText h.buf h.count h.startIndex = h.chronological.foldl appendLine [] := by
    rw [History.chronological, Ring.contents, foldl_map]
    rfl
  have hcount : h.chronological.length = h.count := Ring.length_contents _
  have hle := h.count_le
  rw [hfold, foldl_appendLine hlines, nil_append]
  unfold shellHistorySize at hle
  unfold shellLineMax historyMax
  rw [length_nil]
  omega

/-! ## 読み込み -/

/-- 書いた行はそのまま読まれ、残りの行が続く。 -/
theorem configLoadHistory_text (hls : ∀ l ∈ ls, IsLine l) {rest : List UInt8}
    (hfit : (unlines ls).length ≤ historyMax) {maxEntries : Nat} :
    configLoadHistory (some (unlines ls ++ rest)) maxEntries shellLineMax =
      (ls ++ (lines (rest.take (historyMax - (unlines ls).length))).filter
        fun l => 0 < l.length ∧ l.length < shellLineMax).take maxEntries := by
  have hkeep : ls.filter (fun l => 0 < l.length ∧ l.length < shellLineMax) = ls :=
    filter_eq_self.mpr fun l hl =>
      decide_eq_true ⟨length_pos_iff.mpr (hls l hl).ne_nil, (hls l hl).short⟩
  rw [configLoadHistory, take_append, take_of_length_le hfit,
    lines_unlines fun l hl => (hls l hl).plain, filter_append, hkeep]

theorem length_unlines_le (hls : ∀ l ∈ ls, IsLine l) :
    (unlines ls).length ≤ shellLineMax * ls.length := by
  induction ls with
  | nil => exact Nat.zero_le _
  | cons l ls ih =>
    have hshort : l.length + 1 ≤ shellLineMax := (hls l mem_cons_self).short
    have := ih fun l' hl' => hls l' (mem_cons_of_mem _ hl')
    rw [unlines_cons, length_append, length_cons, length_cons, Nat.mul_succ]
    omega

/-- 前の file の、新しい text より後の部分から読まれる行。 -/
def leftover (file : Option (List UInt8)) (text : List UInt8) : List (List UInt8) :=
  (lines (((file.getD []).drop text.length).take (historyMax - text.length))).filter
    fun l => 0 < l.length ∧ l.length < shellLineMax

/--
**保存した履歴が古い順に読み戻せるのは、履歴が 16 行あるか、前の file の残りから行が読まれないとき、
そのときに限る。** 前の file の中身は何でもよい。
-/
theorem configLoadHistory_saved {h : History} {file : Option (List UInt8)} {m : Medium}
    (hlines : ∀ l ∈ h.chronological, IsLine l) (hsave : (shellSaveHistory file h m).1 = 0) :
    configLoadHistory (shellSaveHistory file h m).2 shellHistorySize shellLineMax
        = h.chronological ↔
      h.count = shellHistorySize ∨ leftover file (unlines h.chronological) = [] := by
  have hcount : h.chronological.length = h.count := Ring.length_contents _
  have hle := h.count_le
  have hmax : (unlines h.chronological).length ≤ historyMax :=
    (length_unlines_le hlines).trans <| (Nat.mul_le_mul_left _ (hcount ▸ hle)).trans (by decide)
  have hload : configLoadHistory (shellSaveHistory file h m).2 shellHistorySize shellLineMax
      = (h.chronological ++ leftover file (unlines h.chronological)).take shellHistorySize := by
    unfold shellSaveHistory configSaveHistory at hsave ⊢
    by_cases h0 : h.count = 0
    · -- 空の履歴は書かれない
      rw [if_pos h0, length_eq_zero_iff.mp (hcount.trans h0)]
      cases file <;> rfl
    · rw [if_neg h0] at hsave ⊢
      rw [saveText_ok hsave, historyText_eq hlines, configLoadHistory_text hlines hmax]
      rfl
  rw [hload]
  constructor
  · intro htake
    have hlen := congrArg length htake
    rw [length_take, length_append, hcount] at hlen
    rw [← length_eq_zero_iff]
    omega
  · rintro (hfull | hnil)
    · exact take_left' (hcount.trans hfull)
    · rw [hnil, append_nil, take_of_length_le (hcount ▸ hle)]

/-! ## 一行の履歴 -/

def noHistory : History := ⟨fun _ => [], 0, 0, by decide, by decide, fun _ => rfl⟩

/-- 一行だけの履歴を、全体を書けるところに保存する。 -/
def saveLine (file : Option (List UInt8)) (line : List UInt8) : Int × Option (List UInt8) :=
  shellSaveHistory file (noHistory.add line) ⟨true, line.length + 1, []⟩

theorem configLoadHistory_saved_line :
    configLoadHistory (saveLine none (ascii "ls")).2 shellHistorySize shellLineMax =
      [ascii "ls"] := by
  have hchron : (noHistory.add (ascii "ls")).chronological = [ascii "ls"] := by decide +kernel
  refine hchron ▸ (configLoadHistory_saved (fun l hl => ?_) (by decide +kernel)).mpr (.inr ?_)
  · rw [hchron] at hl
    rw [mem_singleton.mp hl]
    exact ⟨by decide, by decide, by decide⟩
  · decide +kernel

/-- **`abcdef` を保存した後に `x` だけの履歴を保存すると、前の行の残りの `cdef` も読まれる。** -/
theorem configLoadHistory_leftover :
    (saveLine none (ascii "abcdef")).1 = 0 ∧
    (saveLine (saveLine none (ascii "abcdef")).2 (ascii "x")).1 = 0 ∧
    (noHistory.add (ascii "x")).chronological = [ascii "x"] ∧
    configLoadHistory (saveLine (saveLine none (ascii "abcdef")).2 (ascii "x")).2 shellHistorySize
      shellLineMax = [ascii "x", ascii "cdef"] := by
  decide +kernel

end Alos.Config
