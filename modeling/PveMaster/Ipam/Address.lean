import PveMaster.Core
import Mathlib.Tactic.Common
import Mathlib.Data.Nat.ModEq

/-! IP literals, networks and what the `INET` and `CIDR` columns keep of them.

`Address` and `Network` are what `ipaddress.ip_address` and
`ipaddress.ip_network(.., strict=False)` return: bounded by their family, the
network's base aligned to its size, an IPv6 literal possibly with a scope id. A
column keeps the numeric address only (`Inet`, `Cidr`). Membership is
the mask comparison of the library (`contains`), overlap its four endpoint tests
(`overlaps`); `contains_iff` reads membership as an interval, and
`not_overlaps_disjoint` says that networks which do not overlap share no
address. -/
namespace PveMaster

inductive Family where
  | v4
  | v6
  deriving DecidableEq, Repr

/-- `max_prefixlen`: the number of bits of an address of the family. -/
def Family.bits : Family → Nat
  | .v4 => 32
  | .v6 => 128

/-- A numeric address, as an `INET` column holds it: within the range of its family, and without a
scope id, which the column does not keep. -/
structure Inet where
  version : Family
  ip : Nat
  lt : ip < 2 ^ version.bits
  deriving DecidableEq, Repr

/-- `IPv4Address` or `IPv6Address`. Equality compares the scope id too, which only an IPv6 literal
can have. -/
structure Address where
  version : Family
  ip : Nat
  scopeId : Option String := none
  lt : ip < 2 ^ version.bits
  unscoped : version = .v4 → scopeId = none := by simp
  deriving DecidableEq, Repr

/-- What the column keeps of an address that is written to it. -/
def Address.inet (a : Address) : Inet := ⟨a.version, a.ip, a.lt⟩

/-- The address object a column is read as. -/
def Inet.address (v : Inet) : Address := ⟨v.version, v.ip, none, v.lt, fun _ => rfl⟩

@[simp] theorem Inet.address_inet (v : Inet) : v.address.inet = v := rfl

/-- The digits of an address in groups of `bits` bits, the highest first. -/
def groups (ip bits count : Nat) : List Nat :=
  (List.range count).map (fun i => ip / 2 ^ (bits * (count - 1 - i)) % 2 ^ bits)

/-- A group of an IPv6 address, without zeros before it. -/
def hextet (n : Nat) : String := String.ofList (Nat.toDigits 16 n)

/-- `_compress_hextets`: the first of the longest runs of two zeros or more is left out, and `::`
stands in its place. -/
def compressHextets (l : List Nat) : String :=
  let run (i : Nat) : Nat := ((l.drop i).takeWhile (· == 0)).length
  let best := (List.range l.length).foldl (fun b i => if run b < run i then i else b) 0
  let join (l : List Nat) : String := ":".intercalate (l.map hextet)
  if run best < 2 then join l else join (l.take best) ++ "::" ++ join (l.drop (best + run best))

/-- `str(address)`, the text a guest is configured with. -/
def Inet.text (v : Inet) : String :=
  match v.version with
  | .v4 => ".".intercalate ((groups v.ip 8 4).map toString)
  | .v6 => compressHextets (groups v.ip 16 8)

example : (⟨.v4, 3221225985, by decide⟩ : Inet).text = "192.0.2.1" := by decide
example : (⟨.v6, 42540766411282592856903984951653826561, by decide⟩ : Inet).text = "2001:db8::1" := by
  decide

/-- `IPv4Network` or `IPv6Network`. Its address is a multiple of its size, as `ip_network` with
`strict=False` makes it. -/
structure Network where
  networkAddress : Address
  prefixlen : Nat
  lenLe : prefixlen ≤ networkAddress.version.bits
  aligned : 2 ^ (networkAddress.version.bits - prefixlen) ∣ networkAddress.ip
  deriving DecidableEq, Repr

namespace Network

def version (n : Network) : Family := n.networkAddress.version

/-- `int(network.network_address)`. -/
def base (n : Network) : Nat := n.networkAddress.ip

/-- The number of its addresses, the network's own and the broadcast address included. -/
def numAddresses (n : Network) : Nat := 2 ^ (n.networkAddress.version.bits - n.prefixlen)

/-- `int(network.broadcast_address)`: its last address. -/
def broadcast (n : Network) : Nat := n.base + n.numAddresses - 1

theorem numAddresses_pos (n : Network) : 0 < n.numAddresses := Nat.two_pow_pos _

/-- Whether the numeric address of a family, masked, is the network's. Addresses of the other
family are outside. -/
def containsIp (n : Network) (family : Family) (ip : Nat) : Bool :=
  family == n.version && ip - ip % n.numAddresses == n.base

/-- `address in network`. -/
def contains (n : Network) (a : Address) : Bool := n.containsIp a.version a.ip

/-- Membership of what a column holds. -/
def holds (n : Network) (v : Inet) : Bool := n.containsIp v.version v.ip

@[simp] theorem holds_inet (n : Network) (a : Address) : n.holds a.inet = n.contains a := rfl

/-- `network.overlaps(other)`: one of the four ends lies in the other network. -/
def overlaps (n m : Network) : Bool :=
  m.containsIp n.version n.base || m.containsIp n.version n.broadcast ||
    n.containsIp m.version m.base || n.containsIp m.version m.broadcast

/-- Masking compares an interval: the base is a multiple of the size. -/
theorem containsIp_iff (n : Network) (family : Family) (ip : Nat) :
    n.containsIp family ip = true ↔
      family = n.version ∧ n.base ≤ ip ∧ ip < n.base + n.numAddresses := by
  obtain ⟨q, hq⟩ : n.numAddresses ∣ n.base := n.aligned
  have hpos := n.numAddresses_pos
  have hdiv := Nat.div_add_mod ip n.numAddresses
  have hmod := Nat.mod_lt ip hpos
  simp only [containsIp, Bool.and_eq_true, beq_iff_eq]
  refine and_congr_right fun _ => ⟨fun h => by omega, fun ⟨hl, hu⟩ => ?_⟩
  have hquot : ip / n.numAddresses = q := by
    rw [Nat.div_eq_iff hpos]
    rw [hq] at hl hu
    constructor
    · rw [Nat.mul_comm]; omega
    · rw [Nat.mul_comm]; omega
  rw [hquot] at hdiv
  omega

theorem holds_iff (n : Network) (v : Inet) :
    n.holds v = true ↔ v.version = n.version ∧ n.base ≤ v.ip ∧ v.ip < n.base + n.numAddresses :=
  containsIp_iff n v.version v.ip

/-- Networks that do not overlap share no address. -/
theorem not_overlaps_disjoint {n m : Network} (h : n.overlaps m = false) (v : Inet)
    (hn : n.holds v = true) (hm : m.holds v = true) : False := by
  simp only [overlaps, Bool.or_eq_false_iff] at h
  obtain ⟨⟨⟨h1, _⟩, h3⟩, _⟩ := h
  obtain ⟨hvn, hnl, hnu⟩ := (holds_iff n v).mp hn
  obtain ⟨hvm, hml, hmu⟩ := (holds_iff m v).mp hm
  have hversion : n.version = m.version := hvn ▸ hvm
  -- the larger of the two bases lies in the other network
  rcases Nat.le_total n.base m.base with hle | hle
  · have : n.containsIp m.version m.base = true :=
      (containsIp_iff n _ _).mpr ⟨hversion.symm, hle, by omega⟩
    rw [this] at h3
    cases h3
  · have : m.containsIp n.version n.base = true :=
      (containsIp_iff m _ _).mpr ⟨hversion, hle, by omega⟩
    rw [this] at h1
    cases h1

/-- Networks that overlap share one of their endpoints. -/
theorem overlaps_shares {n m : Network} (h : n.overlaps m = true) :
    ∃ ip, n.containsIp n.version ip = true ∧ m.containsIp n.version ip = true := by
  have ends (k : Network) : k.containsIp k.version k.base = true ∧
      k.containsIp k.version k.broadcast = true := by
    have := k.numAddresses_pos
    constructor
    · exact (containsIp_iff k _ _).mpr ⟨rfl, by omega, by omega⟩
    · exact (containsIp_iff k _ _).mpr ⟨rfl, by unfold broadcast; omega, by unfold broadcast; omega⟩
  simp only [overlaps, Bool.or_eq_true] at h
  rcases h with ((h | h) | h) | h
  · exact ⟨_, (ends n).1, h⟩
  · exact ⟨_, (ends n).2, h⟩
  · have hv := ((containsIp_iff n _ _).mp h).1
    exact ⟨_, hv ▸ h, hv ▸ (ends m).1⟩
  · have hv := ((containsIp_iff n _ _).mp h).1
    exact ⟨_, hv ▸ h, hv ▸ (ends m).2⟩

end Network

/-- A network as a `CIDR` column keeps it: its address has no scope id. -/
structure Cidr extends Network where
  unscoped : networkAddress.scopeId = none
  deriving DecidableEq

/-- What is left of a network written to a `CIDR` column: a scope id is dropped. -/
def Network.stored (n : Network) : Cidr where
  networkAddress := n.networkAddress.inet.address
  prefixlen := n.prefixlen
  lenLe := n.lenLe
  aligned := n.aligned
  unscoped := rfl

@[simp] theorem Network.stored_containsIp (n : Network) (family : Family) (ip : Nat) :
    n.stored.containsIp family ip = n.containsIp family ip := rfl

@[simp] theorem Network.stored_overlaps (n m : Network) :
    n.stored.toNetwork.overlaps m = n.overlaps m := rfl

/-- What a column gives back is written back as it is. -/
theorem Cidr.stored_toNetwork (c : Cidr) : c.toNetwork.stored = c := by
  obtain ⟨⟨⟨version, ip, scopeId, lt, unscoped4⟩, prefixlen, lenLe, aligned⟩, unscoped⟩ := c
  cases unscoped
  rfl

end PveMaster
