import Alos.Ext2.Calls
import Alos.Vfs.Model

/-!
# 道と名前の列

道の解決は、`/` で区切った名前の列を辿ることである。255 文字を超える名前は 255 文字ごとに切れるが、
切れ方は前の部分だけで決まるので、親の道と最後の名前は別々に切ってよい。

* `resolveLoop_eq`、`resolvePath_eq` — 道の解決は、名前の列を辿る
-/

namespace Alos.Vfs

open Bytes Ext2 List

variable {G : Geom} {v : Mount} {path : List UInt8}

/-- 空でない名前だけを置く。 -/
def flushName (name : List UInt8) : List (List UInt8) := if name = [] then [] else [name]

/-- 道を名前の列に切る。`acc` は読みかけの名前である。 -/
def splitNames : List UInt8 → List UInt8 → List (List UInt8)
  | acc, [] => flushName acc
  | acc, c :: p =>
    if c = slash then flushName acc ++ splitNames [] p
    else if acc.length = vfsMaxName then acc :: splitNames [c] p
    else splitNames (acc ++ [c]) p

/-- 名前の列を辿る。 -/
def walk (root : Node) : State → Handle → List (List UInt8) → Option (Option Handle × State)
  | s, current, [] => some (some current, s)
  | s, current, name :: rest =>
    (finddir s (current.node root) name).bind fun (next, s) =>
      match next with
      | none => some (none, s)
      | some node => walk root s (.fresh node) rest

/-! ## 名前の切り方 -/

theorem splitNames_append {q : List UInt8} : ∀ (p acc : List UInt8),
    splitNames acc (p ++ slash :: q) = splitNames acc p ++ splitNames [] q
  | [], acc => by
    rw [nil_append, splitNames.eq_2, if_pos rfl, splitNames.eq_1]
  | c :: p, acc => by
    rw [cons_append, splitNames, splitNames]
    split
    · rw [splitNames_append, append_assoc]
    · split
      · rw [splitNames_append, cons_append]
      · rw [splitNames_append]

/-- 続く `/` は読み飛ばしてよい。 -/
theorem splitNames_dropSlash : ∀ p : List UInt8,
    splitNames [] (p.dropWhile (· = slash)) = splitNames [] p
  | [] => rfl
  | c :: p => by
    by_cases hc : c = slash
    · rw [dropWhile_cons_of_pos (by simpa using hc), splitNames_dropSlash]
      subst hc
      rw [splitNames, if_pos rfl, flushName, if_pos rfl, nil_append]
    · rw [dropWhile_cons_of_neg (by simpa using hc)]

/-- 短い名前は、切れずに一つの名前になる。 -/
theorem splitNames_name : ∀ {p acc : List UInt8}, (∀ c ∈ p, c ≠ slash) →
    acc.length + p.length ≤ vfsMaxName → acc ++ p ≠ [] → splitNames acc p = [acc ++ p]
  | [], acc, _, _, h0 => by
    rw [append_nil] at h0 ⊢
    rw [splitNames, flushName, if_neg h0]
  | c :: p, acc, hc, hlen, _ => by
    rw [length_cons] at hlen
    rw [splitNames, if_neg (hc c mem_cons_self), if_neg (by omega),
      splitNames_name (fun c' h => hc c' (mem_cons_of_mem _ h))
        (by rw [length_append, length_singleton]; omega) (by simp), append_assoc]
    rfl

/-- `component` は、読みかけの名前の続きを切り出す。 -/
theorem splitNames_component : ∀ (n : Nat) (p acc : List UInt8), acc.length + n = vfsMaxName →
    splitNames acc p = flushName (acc ++ (component n p).1) ++
      splitNames [] ((component n p).2.dropWhile (· = slash))
  | 0, [], acc, _ => by
    simp [component, splitNames, flushName]
  | 0, c :: p, acc, hlen => by
    rw [Nat.add_zero] at hlen
    rw [component, append_nil, splitNames_dropSlash, splitNames]
    by_cases hc : c = slash
    · subst hc
      rw [if_pos rfl, splitNames, if_pos rfl, flushName, flushName, if_pos rfl, nil_append]
    · have h0 : acc ≠ [] := by
        rintro rfl
        cases hlen
      rw [if_neg hc, if_pos hlen, flushName, if_neg h0, splitNames, if_neg hc]
      rfl
  | n + 1, [], acc, _ => by
    simp [component, splitNames, flushName]
  | n + 1, c :: p, acc, hlen => by
    by_cases hc : c = slash
    · rw [component, if_pos hc, append_nil, splitNames_dropSlash]
      subst hc
      rw [splitNames, if_pos rfl, splitNames, if_pos rfl, flushName, flushName, if_pos rfl,
        nil_append]
    · rw [component, if_neg hc, splitNames, if_neg hc, if_neg (by omega), splitNames_component n p _
          (by rw [length_append, length_singleton]; omega), append_assoc]
      rfl

/-! ## 道の解決 -/

theorem component_length (n : Nat) (p : List UInt8) :
    (component n p).1.length + (component n p).2.length = p.length := by
  induction n generalizing p with
  | zero => simp [component]
  | succ n ih =>
    cases p with
    | nil => simp [component]
    | cons c p =>
      rw [component]
      split
      · simp
      · have := ih p
        simp only [length_cons]
        omega

/-- ループは一周で一文字以上進む。 -/
theorem rest_length_lt (c : UInt8) (p : List UInt8) :
    ((component vfsMaxName (c :: p)).2.dropWhile (· = slash)).length ≤ p.length := by
  have hle : ∀ q : List _, (q.dropWhile (· = slash)).length ≤ q.length := fun q =>
    (dropWhile_suffix _).length_le
  by_cases hc : c = slash
  · rw [show component vfsMaxName (c :: p) = ([], c :: p) from if_pos hc,
      dropWhile_cons_of_pos (by simpa using hc)]
    exact hle p
  · have h1 := component_length (vfsMaxName - 1) p
    have h2 := hle (component vfsMaxName (c :: p)).2
    have h3 : (component vfsMaxName (c :: p)).2 = (component (vfsMaxName - 1) p).2 := by
      show (component (vfsMaxName - 1 + 1) _).2 = _
      rw [component, if_neg hc]
    rw [h3] at h2 ⊢
    omega

theorem resolveLoop_eq (root : Node) : ∀ (fuel : Nat) (s : State) (current : Handle)
    (p : List UInt8), p.length ≤ fuel →
    resolveLoop root fuel s current p = walk root s current (splitNames [] p)
  | fuel, s, current, [], _ => by
    cases fuel <;> simp [resolveLoop, splitNames, flushName, walk]
  | 0, _, _, _ :: _, h => by cases h
  | fuel + 1, s, current, c :: p, h => by
    have hrest := rest_length_lt c p
    rw [length_cons] at h
    rw [splitNames_component vfsMaxName _ [] rfl, nil_append, resolveLoop]
    simp only
    by_cases h0 : (component vfsMaxName (c :: p)).1 = []
    · rw [resolveLoop_eq root fuel s _ _ (by omega), h0]
      rfl
    · rw [if_neg h0, flushName, if_neg h0]
      congr 1
      funext ⟨next, s'⟩
      cases next with
      | none => rfl
      | some node => exact resolveLoop_eq root fuel s' _ _ (by omega)

/-- **絶対の道の解決は、`vfs_root` から名前の列を辿ることである。** -/
theorem resolvePath_eq {p : List UInt8} :
    vfsResolvePath v (slash :: p) = walk v.root v.fs .root (splitNames [] (slash :: p)) := by
  have hslash : splitNames [] (slash :: p) = splitNames [] p := by
    rw [splitNames, if_pos rfl, flushName, if_pos rfl, nil_append]
  rw [vfsResolvePath, if_neg (not_not.mpr rfl)]
  split
  · rename_i h
    subst h
    rfl
  · exact resolveLoop_eq _ _ _ _ _ (le_refl _)

theorem walk_skips (root : Node) : ∀ {ns : List (List UInt8)} {s s' : State}
    {current : Handle} {h : Option Handle}, Ready G s → walk root s current ns = some (h, s') →
    Skips s s'
  | [], s, _, _, _, _, hw => by
    cases hw
    exact .refl s
  | name :: ns, s, s', current, h, hr, hw => by
    obtain ⟨⟨next, s1⟩, hfind, hw⟩ := Option.bind_eq_some_iff.mp hw
    have hskip : Skips s s1 := by
      unfold finddir at hfind
      split at hfind
      · exact finddir_skips hr hfind
      · cases hfind
        exact .refl s
    cases next with
    | none =>
      cases hw
      exact hskip
    | some node => exact hskip.trans (walk_skips root (hskip.ready hr) hw)

theorem resolvePath_skips (hr : Ready G v.fs) {h : Option Handle} {s : State}
    (hres : vfsResolvePath v path = some (h, s)) :
    Skips v.fs s := by
  cases path with
  | nil =>
    cases hres
    exact .refl _
  | cons c p =>
    by_cases hc : c = slash
    · subst hc
      rw [resolvePath_eq] at hres
      exact walk_skips _ hr hres
    · rw [vfsResolvePath, if_pos hc] at hres
      cases hres
      exact .refl _

/-! ## 最後の名前 -/

/-- 最後の `/` の前が親の道、後が `/` を含まない名前である。 -/
theorem lastSlash_eq_some : ∀ {p : List UInt8} {i k : Nat} {last : Option Nat},
    lastSlash p i last = some k →
    (∃ a b, p = a ++ slash :: b ∧ k = i + a.length ∧ ∀ c ∈ b, c ≠ slash) ∨
      ((∀ c ∈ p, c ≠ slash) ∧ last = some k)
  | [], _, _, _, h => .inr ⟨by simp, h⟩
  | c :: p, i, k, last, h => by
    rw [lastSlash] at h
    rcases lastSlash_eq_some h with ⟨a, b, rfl, rfl, hb⟩ | ⟨hp, hlast⟩
    · exact .inl ⟨c :: a, b, rfl, by rw [length_cons]; omega, hb⟩
    by_cases hc : c = slash
    · rw [if_pos hc] at hlast
      cases hlast
      exact .inl ⟨[], p, by rw [hc]; rfl, rfl, hp⟩
    · rw [if_neg hc] at hlast
      refine .inr ⟨?_, hlast⟩
      intro c' hc'
      rcases mem_cons.mp hc' with rfl | hc'
      · exact hc
      · exact hp c' hc'

/-- 絶対の道は、親の道と最後の名前に分かれる。名前の列も分かれる。 -/
theorem split_path {k : Nat} (habs : path.head? = some slash)
    (hk : lastSlash path 0 none = some k) (hshort : k < vfsMaxPath)
    (h0 : path.drop (k + 1) ≠ []) (hname : (path.drop (k + 1)).length ≤ vfsMaxName) :
    ∃ p, parentPath path k = slash :: p ∧
      splitNames [] path = splitNames [] (slash :: p) ++ [path.drop (k + 1)] := by
  obtain ⟨a, b, rfl, rfl, hb⟩ := (lastSlash_eq_some hk).resolve_right fun h => by cases h.2
  rw [Nat.zero_add] at *
  have hdrop : (a ++ slash :: b).drop (a.length + 1) = b := by simp
  have htake : (a ++ slash :: b).take (min a.length (vfsMaxPath - 1)) = a := by
    rw [Nat.min_eq_left (by omega), take_left']
    rfl
  rw [hdrop] at h0 hname ⊢
  have hsplit : splitNames [] (a ++ slash :: b) = splitNames [] a ++ [b] := by
    rw [splitNames_append, splitNames_name hb (by simpa using hname) (by simpa using h0)]
    rfl
  cases a with
  | nil =>
    refine ⟨[], rfl, ?_⟩
    rw [hsplit]
    rfl
  | cons c a =>
    obtain rfl : c = slash := by simpa using habs
    refine ⟨a, ?_, hsplit⟩
    rw [parentPath, if_neg (by simp), htake]

/-- 成功したのは、親の callback である。 -/
theorem atParent_done {callback : State → Node → List UInt8 → Option (Int × Node × State)}
    {v' : Mount} (h : atParent callback v path = some (0, v')) :
    ∃ k handle s node s', lastSlash path 0 none = some k ∧ path.drop (k + 1) ≠ [] ∧
      vfsResolvePath v (parentPath path k) = some (some handle, s) ∧
      (handle.node v.root).type = vfsDirectory ∧
      callback s (handle.node v.root) (path.drop (k + 1)) = some (0, node, s') ∧
      v' = v.update handle node s' := by
  unfold atParent at h
  cases hk : lastSlash path 0 none with
  | none => simp [hk] at h
  | some k =>
    simp only [hk] at h
    split at h
    · cases h
    rename_i h0
    obtain ⟨⟨parent, s⟩, hres, h⟩ := Option.bind_eq_some_iff.mp h
    cases parent with
    | none => cases h
    | some handle =>
      simp only at h
      split at h
      · cases h
      · split at h
        · cases h
        · rename_i htype
          obtain ⟨⟨r, node, s'⟩, hcall, heq⟩ := Option.map_eq_some_iff.mp h
          obtain ⟨rfl, rfl⟩ := heq
          exact ⟨k, handle, s, node, s', rfl, h0, hres, not_not.mp htype, hcall, rfl⟩

end Alos.Vfs
