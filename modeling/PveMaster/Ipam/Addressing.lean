import PveMaster.Ipam.Exclusivity

/-! Which addresses of a pool can be used.

The network address, the broadcast address of an IPv4 network, the gateway and the excluded
ranges are kept out twice: a named address is compared with them (`validatedCandidate`,
`isExcluded`), an automatic choice avoids their offsets (`blockedOffsets`). -/
namespace PveMaster.Ipam
open IpamService

/-- What is kept for the network itself is not this address: not its own, not the broadcast
address where the family has one, and not the gateway. -/
structure Usable (pool : IpPool) (v : Inet) : Prop where
  base : v.ip ≠ pool.cidr.base
  broadcast : pool.cidr.version = .v4 → v.ip ≠ pool.cidr.broadcast
  gateway : pool.gateway ≠ some v

/-- What an administrator has excluded from a pool: a range of it holds the address. -/
def Excluded (exclusions : Table IpPoolExclusion) (poolId : Uuid) (v : Inet) : Prop :=
  ∃ e ∈ exclusions, e.poolId = poolId ∧ e.startAddress.ip ≤ v.ip ∧ v.ip ≤ e.endAddress.ip

/-- The intervals `_automatic_candidate` blocks for the exclusions, the network address, the
broadcast address and the gateway, as offsets within the network. Those of the stored addresses
come on top. -/
def forbiddenOffsets (t : IpamTables) (pool : IpPool) : List (Int × Int) :=
  let base : Int := pool.cidr.base
  let last : Int := pool.cidr.numAddresses - 1
  (exclusionBounds t pool.id).map (fun b => (max 0 (b.1 - base), min last (b.2 - base))) ++
    [(0, 0)] ++ (if pool.cidr.version = .v4 then [(last, last)] else []) ++
    (match pool.gateway with
      | some g => [((g.ip : Int) - base, (g.ip : Int) - base)]
      | none => [])

/-- The others are the offsets of the addresses there are. -/
theorem mem_blockedOffsets {t : IpamTables} {pool : IpPool} {b : Int × Int} :
    b ∈ blockedOffsets t pool ↔ b ∈ forbiddenOffsets t pool ∨ ∃ a ∈ t.addresses, a.poolId = pool.id ∧
      b = ((a.address.ip : Int) - pool.cidr.base, (a.address.ip : Int) - pool.cidr.base) := by
  have hrows : b ∈ (t.addresses.select (fun a => a.poolId == pool.id)).map
      (fun a => ((a.address.ip : Int) - pool.cidr.base, (a.address.ip : Int) - pool.cidr.base)) ↔
        ∃ a ∈ t.addresses, a.poolId = pool.id ∧
          b = ((a.address.ip : Int) - pool.cidr.base, (a.address.ip : Int) - pool.cidr.base) := by
    rw [List.mem_map]
    constructor
    · rintro ⟨a, ha, rfl⟩
      obtain ⟨hmem, hpool⟩ := Table.mem_select.mp ha
      exact ⟨a, hmem, by simpa using hpool, rfl⟩
    · rintro ⟨a, hmem, hpool, rfl⟩
      exact ⟨a, Table.mem_select.mpr ⟨hmem, by simpa using hpool⟩, rfl⟩
  rw [← hrows]
  unfold blockedOffsets forbiddenOffsets
  simp only [List.mem_append]
  constructor
  · rintro ((((h | h) | h) | h) | h)
    · exact Or.inl (Or.inl (Or.inl (Or.inl h)))
    · exact Or.inr h
    · exact Or.inl (Or.inl (Or.inl (Or.inr h)))
    · exact Or.inl (Or.inl (Or.inr h))
    · exact Or.inl (Or.inr h)
  · rintro ((((h | h) | h) | h) | h)
    · exact Or.inl (Or.inl (Or.inl (Or.inl h)))
    · exact Or.inl (Or.inl (Or.inr h))
    · exact Or.inl (Or.inr h)
    · exact Or.inr h
    · exact Or.inl (Or.inl (Or.inl (Or.inr h)))

/-! ### Two ways to say the same -/

theorem isExcluded_iff {t : IpamTables} {poolId : Uuid} {a : Address} :
    isExcluded t poolId a = true ↔ Excluded t.exclusions poolId a.inet := by
  unfold isExcluded exclusionBounds Excluded
  rw [List.any_map, List.any_eq_true]
  constructor
  · rintro ⟨e, he, hin⟩
    obtain ⟨hmem, hpool⟩ := Table.mem_select.mp he
    simp only [Function.comp_apply, decide_eq_true_eq, Int.ofNat_le] at hin
    exact ⟨e, hmem, by simpa using hpool, hin.1, hin.2⟩
  · rintro ⟨e, hmem, hpool, hlow, hhigh⟩
    exists e
    simp only [Table.mem_select, hmem, hpool, Function.comp_apply, decide_eq_true_eq, Int.ofNat_le, beq_self_eq_true]
    exact ⟨⟨trivial, trivial⟩, hlow, hhigh⟩

/-- `_special`, on a literal without a scope id that lies in the pool. -/
theorem special_unscoped {pool : IpPool} {a : Address} (hin : pool.cidr.contains a = true)
    (hscope : a.scopeId = none) : special pool a = false ↔ Usable pool a.inet := by
  obtain ⟨hversion, -, -⟩ := (Network.containsIp_iff _ _ _).mp hin
  have hbase : a = pool.cidr.networkAddress ↔ a.ip = pool.cidr.base := by
    constructor
    · exact fun h => congrArg Address.ip h
    · intro h
      have hunscoped := pool.cidr.unscoped
      cases ha : a
      cases hn : pool.cidr.networkAddress
      simp_all [Network.version, Network.base]
  have hgateway : pool.gateway.map Inet.address = some a ↔ pool.gateway = some a.inet := by
    constructor
    · intro h
      obtain ⟨g, hg, rfl⟩ := Option.map_eq_some_iff.mp h
      exact hg
    · intro h
      rw [h]
      cases a
      simp_all [Inet.address, Address.inet]
  unfold special
  simp only [Bool.or_eq_false_iff, beq_eq_false_iff_ne, Bool.and_eq_false_iff, ne_eq, hbase, hgateway]
  constructor
  · rintro ⟨⟨hb, hc⟩, hg⟩
    exact ⟨hb, fun hv => hc.resolve_left fun h => h hv, hg⟩
  · rintro ⟨hb, hc, hg⟩
    refine ⟨⟨hb, ?_⟩, hg⟩
    by_cases hv : pool.cidr.version = .v4
    · exact Or.inr (hc hv)
    · exact Or.inl hv

/-- A scope id makes a literal differ from whatever the columns hold. -/
theorem special_scoped {pool : IpPool} {a : Address} (hin : pool.cidr.contains a = true)
    (hscope : a.scopeId ≠ none) : special pool a = false := by
  obtain ⟨hversion, -, -⟩ := (Network.containsIp_iff _ _ _).mp hin
  have hv : pool.cidr.version ≠ .v4 := fun h => hscope (a.unscoped (hversion.trans h))
  have hbase : a ≠ pool.cidr.networkAddress := by
    rintro rfl
    exact hscope pool.cidr.unscoped
  have hgateway : pool.gateway.map Inet.address ≠ some a := by
    intro h
    obtain ⟨g, -, rfl⟩ := Option.map_eq_some_iff.mp h
    exact hscope rfl
  simp [special, hbase, hv, hgateway]

/-- The forbidden intervals, read as addresses of the pool. -/
theorem covered_forbidden {t : IpamTables} {pool : IpPool} {v : Inet} (hin : pool.cidr.holds v = true)
    (hgateway : ∀ g ∈ pool.gateway, pool.cidr.holds g = true) :
    Covered (forbiddenOffsets t pool) ((v.ip : Int) - pool.cidr.base) ↔
      ¬ Usable pool v ∨ Excluded t.exclusions pool.id v := by
  obtain ⟨hversion, hlow, hhigh⟩ := (Network.holds_iff _ _).mp hin
  have hpos := pool.cidr.numAddresses_pos
  have hexcluded : Covered ((exclusionBounds t pool.id).map
      (fun b => (max 0 (b.1 - (pool.cidr.base : Int)), min ((pool.cidr.numAddresses : Int) - 1) (b.2 - pool.cidr.base))))
        ((v.ip : Int) - pool.cidr.base) ↔ Excluded t.exclusions pool.id v := by
    unfold Covered Excluded exclusionBounds
    simp only [List.mem_map, Table.mem_select, beq_iff_eq, exists_exists_and_eq_and]
    constructor
    · rintro ⟨e, ⟨hmem, hpool⟩, hle⟩
      exact ⟨e, hmem, hpool, by omega, by omega⟩
    · rintro ⟨e, hmem, hpool, hle⟩
      exact ⟨e, ⟨hmem, hpool⟩, by omega⟩
  have hspecial : Covered ([(0, 0)] ++ (if pool.cidr.version = .v4 then
      [((pool.cidr.numAddresses : Int) - 1, (pool.cidr.numAddresses : Int) - 1)] else []) ++
        (match pool.gateway with
          | some g => [((g.ip : Int) - pool.cidr.base, (g.ip : Int) - pool.cidr.base)]
          | none => [])) ((v.ip : Int) - pool.cidr.base) ↔ ¬ Usable pool v := by
    constructor
    · rintro ⟨r, hr, hle⟩ husable
      simp only [List.mem_append, List.mem_singleton] at hr
      rcases hr with (rfl | hr) | hr
      · exact husable.base (by dsimp only at hle; omega)
      · split at hr
        · next hv =>
          cases List.mem_singleton.mp hr
          refine husable.broadcast hv ?_
          unfold Network.broadcast
          dsimp only at hle
          omega
        · cases hr
      · split at hr
        · next g hg =>
          cases List.mem_singleton.mp hr
          obtain ⟨hsame, -, -⟩ := (Network.holds_iff _ _).mp (hgateway g hg)
          have hip : v.ip = g.ip := by dsimp only at hle; omega
          have heq : v = g := by
            cases v
            cases g
            simp_all
          exact husable.gateway (heq ▸ hg)
        · cases hr
    · intro hnot
      by_contra hfree
      refine hnot ⟨fun h => hfree ⟨(0, 0), by simp, by dsimp only; omega⟩, fun hv h => hfree ?_, fun h => hfree ?_⟩
      · refine ⟨((pool.cidr.numAddresses : Int) - 1, (pool.cidr.numAddresses : Int) - 1), by simp [hv], ?_⟩
        unfold Network.broadcast at h
        dsimp only
        omega
      · exact ⟨((v.ip : Int) - pool.cidr.base, (v.ip : Int) - pool.cidr.base), by simp [h], le_refl _, le_refl _⟩
  have hsplit {l l' : List (Int × Int)} {x : Int} : Covered (l ++ l') x ↔ Covered l x ∨ Covered l' x := by
    simp only [Covered, List.mem_append, or_and_right, exists_or]
  unfold forbiddenOffsets
  dsimp only
  rw [List.append_assoc, List.append_assoc, hsplit, hexcluded, ← List.append_assoc, hspecial, or_comm]

/-! ### Choosing an address -/

theorem randomOffset_free {size : Nat} {blocked : List (Int × Int)} {random : Nat → Nat} {i n o : Nat}
    (h : randomOffset size blocked random i n = some o) : ¬ Covered blocked o := by
  induction n generalizing i with
  | zero => cases h
  | succ n ih =>
    simp only [randomOffset] at h
    split at h
    · exact ih h
    · next hfree =>
      cases h
      rintro ⟨r, hr, hin⟩
      exact hfree (List.any_eq_true.mpr ⟨r, hr, by simpa using hin⟩)

theorem chosenOffset_free {t : IpamTables} {pool : IpPool} {random : Nat → Nat} {o : Nat}
    (hnext : pool.nextOffset < pool.cidr.numAddresses) (h : chosenOffset t pool random = some o) :
    ¬ Covered (blockedOffsets t pool) o := by
  unfold chosenOffset at h
  rcases Option.or_eq_some_iff.mp h with h | ⟨-, h⟩
  · split at h
    · exact randomOffset_free h
    · cases h
  · obtain ⟨i, hi, rfl⟩ := Option.map_eq_some_iff.mp h
    have hmem := firstFreeOffset_mem (by omega) (by omega) hi
    have hfree := firstFreeOffset_free (by omega) (by omega) hi
    rwa [Int.toNat_of_nonneg hmem.1]

end PveMaster.Ipam
