import Alos.Lib.Wire
import Mathlib.Data.List.Induction

/-!
# 経路と MAC の解決（`net/l3/route.c`、`net/l2/arp.c`）

送る側の TCP は、宛先の IP から次の hop を経路表で選び、その MAC を ARP の cache から引く。どちらかが無ければ、
packet は出ない。
-/

namespace Alos.Net

/-- IPv4 の番地。 -/
structure Ip where
  b0 : UInt8
  b1 : UInt8
  b2 : UInt8
  b3 : UInt8
  deriving DecidableEq, Repr

def Ip.zero : Ip := ⟨0, 0, 0, 0⟩

def Ip.bytes (ip : Ip) : List UInt8 := [ip.b0, ip.b1, ip.b2, ip.b3]

def ipU32ToBytes (ip : UInt32) : Ip :=
  ⟨(ip >>> 24).toUInt8, (ip >>> 16).toUInt8, (ip >>> 8).toUInt8, ip.toUInt8⟩

abbrev Mac := Vector UInt8 6

open List

/-! ## 経路表 -/

structure RouteEntry where
  network : Ip
  netmask : Ip
  gateway : Ip
  active : Bool

def Ip.mask (ip netmask : Ip) : Ip :=
  ⟨ip.b0 &&& netmask.b0, ip.b1 &&& netmask.b1, ip.b2 &&& netmask.b2, ip.b3 &&& netmask.b3⟩

def ipInNetwork (ip network netmask : Ip) : Bool := ip.mask netmask = network.mask netmask

/-- 1 の bit の数。byte が零になるまで右にずらす。 -/
def onesLoop : Nat → UInt8 → Nat
  | 0, _ => 0
  | fuel + 1, byte => if byte = 0 then 0 else (byte &&& 1).toNat + onesLoop fuel (byte >>> 1)

def netmaskLength (netmask : Ip) : Nat := (netmask.bytes.map (onesLoop 8)).sum

/-- 一致する経路のうち、mask の最も長いものを選ぶ。同じ長さなら先のものが残る。 -/
def routeLookup (routes : List RouteEntry) (destIp : Ip) : Option RouteEntry :=
  (routes.foldl (fun (best : Option RouteEntry × Int) route =>
    if ¬route.active then best
    else if ipInNetwork destIp route.network route.netmask then
      if best.2 < netmaskLength route.netmask then (some route,
        netmaskLength route.netmask) else best
    else best) (none, -1)).1

/-- gateway が無い経路では、宛先がそのまま次の hop である。 -/
def routeGetNextHop (routes : List RouteEntry) (destIp : Ip) : Option Ip :=
  (routeLookup routes destIp).map fun route =>
    if route.gateway = Ip.zero then destIp else route.gateway

def RouteEntry.matches (route : RouteEntry) (destIp : Ip) : Bool :=
  route.active && ipInNetwork destIp route.network route.netmask

/-- 一致する経路のうち mask の最も長いもの。同じ長さなら表の先のもの。 -/
def Longest (destIp : Ip) (routes : List RouteEntry) : Option RouteEntry → Prop
  | none => ∀ route ∈ routes, ¬route.matches destIp
  | some best =>
    (∀ route ∈ routes, route.matches destIp → netmaskLength route.netmask ≤
      netmaskLength best.netmask) ∧
    routes.find? (fun route => route.matches destIp &&
      netmaskLength route.netmask == netmaskLength best.netmask) = some best

/-- **`route_lookup` は、最も長く一致する経路を返し、一致するものが無いときだけ NULL を返す。** -/
theorem route_longest (routes : List RouteEntry) (destIp : Ip) :
    Longest destIp routes (routeLookup routes destIp) := by
  unfold routeLookup
  generalize hbest : routes.foldl _ _ = best
  -- `best_prefix_len` は、見終わった経路から選んだものの mask の長さである
  suffices h : best.2 = best.1.elim (-1 : Int) (netmaskLength ·.netmask) ∧
    Longest destIp routes best.1 from h.2
  induction routes using reverseRecOn generalizing best with
  | nil => simp [← hbest, Longest]
  | append_singleton seen route ih =>
    rw [foldl_append, foldl_cons, foldl_nil] at hbest
    have hseen := ih _ rfl
    generalize seen.foldl _ _ = old at hseen hbest
    obtain ⟨_ | old, len⟩ := old <;> grind [RouteEntry.matches, Longest]

/-! ## ARP の cache -/

structure ArpCacheEntry where
  ip : Ip
  mac : Mac
  valid : Bool

def arpCacheLookup (cache : List ArpCacheEntry) (ip : Ip) : Option Mac :=
  (cache.find? fun entry => entry.valid && decide (entry.ip = ip)).map ArpCacheEntry.mac

/-- 同じ IP の entry、無ければ空きの entry の場所。どちらも無ければ先頭である。 -/
def arpCacheSlot (cache : List ArpCacheEntry) (ip : Ip) : Nat :=
  match cache.findIdx? fun entry => entry.valid && decide (entry.ip = ip) with
  | some i => i
  | none => (cache.findIdx? (!·.valid)).getD 0

/-- 同じ IP の entry では、MAC だけが変わる。 -/
def arpCacheAdd (cache : List ArpCacheEntry) (ip : Ip) (mac : Mac) : List ArpCacheEntry :=
  cache.set (arpCacheSlot cache ip) ⟨ip, mac, true⟩

/-- `adds` は加えたものの新しい順の列である。一つの IP の entry は一つで、最後に加えた MAC を持つ。 -/
structure Latest (adds : List (Ip × Mac)) (cache : List ArpCacheEntry) : Prop where
  pos : 0 < cache.length
  unique : ∀ (i j : Nat) (a b : ArpCacheEntry), cache[i]? = some a → cache[j]? = some b →
    a.valid → b.valid → a.ip = b.ip → i = j
  latest : ∀ a ∈ cache, a.valid → adds.lookup a.ip = some a.mac

variable {adds : List (Ip × Mac)} {cache : List ArpCacheEntry} {ip : Ip} {mac : Mac}

/-- 加える先のほかに、同じ IP の entry は無い。 -/
theorem Latest.slot (h : Latest adds cache) (ip : Ip) : arpCacheSlot cache ip < cache.length ∧
    ∀ (j : Nat) (a : ArpCacheEntry), cache[j]? = some a → a.valid → a.ip = ip →
      j = arpCacheSlot cache ip := by
  unfold arpCacheSlot
  split
  · rename_i k hk
    obtain ⟨hlt, hhit, -⟩ := findIdx?_eq_some_iff_getElem.mp hk
    refine ⟨hlt, fun j a hj hvalid hip => h.unique j k a _ hj (getElem?_eq_getElem hlt)
      hvalid ?_ ?_⟩ <;> grind
  · refine ⟨?_, by grind⟩
    cases hfree : cache.findIdx? (!·.valid) with
    | none => exact h.pos
    | some i => exact (findIdx?_eq_some_iff_getElem.mp hfree).1

theorem Latest.add (h : Latest adds cache) : Latest ((ip, mac) :: adds)
    (arpCacheAdd cache ip mac) := by
  obtain ⟨-, hother⟩ := h.slot ip
  unfold arpCacheAdd
  refine ⟨by simp [h.pos], fun i j a b ha hb => ?_, fun a ha => ?_⟩
  · grind [h.unique]
  · obtain ⟨i, ha⟩ := mem_iff_getElem?.mp ha
    grind [h.latest]

theorem Latest.lookup (h : Latest adds cache) (hfind : arpCacheLookup cache ip = some mac) :
    adds.lookup ip = some mac := by
  obtain ⟨entry, hfind, rfl⟩ := Option.map_eq_some_iff.mp hfind
  grind [h.latest, mem_of_find?_eq_some]

def arpCacheSize : Nat := 1024

/-- 起動の後、`adds` を古い方から加えた cache。 -/
def arpCacheAfter (adds : List (Ip × Mac)) : List ArpCacheEntry :=
  adds.foldr (fun add cache => arpCacheAdd cache add.1 add.2)
    (replicate arpCacheSize ⟨Ip.zero, #v[0, 0, 0, 0, 0, 0], false⟩)

theorem latest_after (adds : List (Ip × Mac)) : Latest adds (arpCacheAfter adds) := by
  induction adds with
  | nil => exact ⟨by grind [arpCacheAfter, arpCacheSize], by grind [arpCacheAfter], by grind
    [arpCacheAfter]⟩
  | cons add adds ih => exact ih.add

/-- **`arp_cache_lookup` が返すのは、その IP に最後に加えた MAC である。加えた直後には必ず返る。** -/
theorem arp_latest (adds : List (Ip × Mac)) (ip : Ip) (mac : Mac) :
    (arpCacheLookup (arpCacheAfter adds) ip = some mac → adds.lookup ip = some mac) ∧
    arpCacheLookup (arpCacheAdd (arpCacheAfter adds) ip mac) ip = some mac := by
  have h := latest_after adds
  refine ⟨h.lookup, ?_⟩
  have hsome : (arpCacheLookup (arpCacheAdd (arpCacheAfter adds) ip mac) ip).isSome := by
    rw [arpCacheLookup, Option.isSome_map, find?_isSome]
    exact ⟨_, mem_set (h.slot ip).1 _, by simp⟩
  obtain ⟨mac', hmac⟩ := Option.isSome_iff_exists.mp hsome
  rw [hmac, ← h.add.lookup hmac, lookup_cons_self]

/-! ## 送るときに見るもの -/

/--
一つの呼出しの間の、ほかの層の状態。

`ipAddr` は `netif_get_default()` の `ip_addr` で、interface が無ければ `none` である。`kmalloc` は、socket の表を
広げるときに `kmalloc` が返す番地で、`none` は NULL を表す。
-/
structure Env where
  routes : List RouteEntry
  arpCache : List ArpCacheEntry
  ipAddr : Option UInt32
  myIp : Ip
  /-- `timer_get_ticks()` -/
  ticks : UInt64
  kmalloc : Option Nat

/-- 自分の IP。interface に番地が無ければ `MY_IP` を使う。 -/
def Env.sourceIp (env : Env) : Ip :=
  match env.ipAddr with
  | some ip => if ip ≠ 0 then ipU32ToBytes ip else env.myIp
  | none => env.myIp

/-- 宛先への次の hop とその MAC。 -/
def Env.resolve (env : Env) (destIp : Ip) : Option Mac :=
  (routeGetNextHop env.routes destIp).bind (arpCacheLookup env.arpCache)

/-- QEMU の user network（`net/core/net.h`）。番地は 10.0.2.15 で、gateway 10.0.2.2 の MAC は分かっている。 -/
def Env.qemu : Env where
  routes := [⟨⟨10, 0, 2, 0⟩, ⟨255, 255, 255, 0⟩, Ip.zero, true⟩,
    ⟨Ip.zero, Ip.zero, ⟨10, 0, 2, 2⟩, true⟩]
  arpCache := [⟨⟨10, 0, 2, 2⟩, #v[0x52, 0x55, 0x0A, 0, 2, 2], true⟩]
  ipAddr := some 0x0A00020F
  myIp := ⟨10, 0, 2, 15⟩
  ticks := 7
  kmalloc := some 0x200018

/-- 外の網へは gateway の MAC で、同じ網の知らない相手へは送れない。 -/
example : Env.qemu.resolve ⟨8, 8, 8, 8⟩ = some #v[0x52, 0x55, 0x0A, 0, 2, 2] ∧
    Env.qemu.resolve ⟨10, 0, 2, 9⟩ = none := by decide

end Alos.Net
