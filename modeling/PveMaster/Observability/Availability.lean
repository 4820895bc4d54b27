import PveMaster.Observability.Pools
import PveMaster.Ipam.Atomicity
import PveMaster.Ipam.Quarantine

/-! The reported count, and what can be allocated.

An automatic call gives out an `AVAILABLE` row, or materialises an offset that nothing blocks
(`Taken`). It takes one address out of those that can be allocated (`Taken.allocatable`), so as
many calls succeed as there are such addresses (`answers_eq`). The monitoring blocks whatever
is forbidden, rows or not; the two agree unless an `AVAILABLE` row holds a forbidden address. -/
namespace PveMaster.Observability
open Ipam IpamService

/-! ### What can be allocated -/

section Sets
variable (t : IpamTables) (pool : IpPool)

/-- Some address of the pool stands at `x`. -/
def Standing (x : Int) : Prop := ∃ a ∈ t.addresses, a.poolId = pool.id ∧ (a.address.ip : Int) = x

/-- An `AVAILABLE` one. -/
def Standby (x : Int) : Prop :=
  ∃ a ∈ t.addresses, a.poolId = pool.id ∧ a.state = .available ∧ (a.address.ip : Int) = x

/-- What an automatic call can give out: an `AVAILABLE` row, or an address without a row that is
not forbidden. -/
def Allocatable (x : Int) : Prop :=
  Standby t pool x ∨ ¬ Standing t pool x ∧ ¬ Covered (forbiddenOffsets t pool) (x - pool.cidr.base)

open Classical in
/-- All of it. -/
noncomputable def allocatable : Finset Int :=
  (Finset.Icc (pool.cidr.base : Int) pool.cidr.broadcast).filter (Allocatable t pool)

/-- An `AVAILABLE` row of the pool holds what is kept for the network, or what is excluded. -/
def ForbiddenStandby : Prop :=
  ∃ a ∈ t.addresses, a.poolId = pool.id ∧ a.state = .available ∧
    (¬ Usable pool a.address ∨ Excluded t.exclusions pool.id a.address)

end Sets

section Counts
variable {t : IpamTables} {pool : IpPool}

theorem inet_ext {v w : Inet} (hversion : v.version = w.version) (hip : v.ip = w.ip) : v = w := by
  cases v
  cases w
  cases hversion
  cases hip
  rfl

theorem covered_blockedOffsets {x : Int} : Covered (blockedOffsets t pool) (x - pool.cidr.base) ↔
    Covered (forbiddenOffsets t pool) (x - pool.cidr.base) ∨ Standing t pool x := by
  unfold Covered
  constructor
  · rintro ⟨r, hr, hin⟩
    rcases mem_blockedOffsets.mp hr with hforbidden | ⟨a, ha, hpool, rfl⟩
    · exact Or.inl ⟨r, hforbidden, hin⟩
    · right
      exists a
      dsimp only at hin
      exact ⟨ha, hpool, by omega⟩
  · rintro (⟨r, hr, hin⟩ | ⟨a, ha, hpool, rfl⟩)
    · exact ⟨r, mem_blockedOffsets.mpr (Or.inl hr), hin⟩
    · exact ⟨_, mem_blockedOffsets.mpr (Or.inr ⟨a, ha, hpool, rfl⟩), le_refl _, le_refl _⟩

theorem not_usable {v : Inet} : ¬ Usable pool v ↔ v.ip = pool.cidr.base ∨
    (pool.cidr.version = .v4 ∧ v.ip = pool.cidr.broadcast) ∨ pool.gateway = some v := by
  constructor
  · intro h
    by_contra hnot
    push Not at hnot
    exact h ⟨hnot.1, hnot.2.1, hnot.2.2⟩
  · rintro (h | ⟨hv, h⟩ | h) husable
    · exact husable.base h
    · exact husable.broadcast hv h
    · exact husable.gateway h

/-- Of an address of the pool: it is forbidden, or a row that is not `AVAILABLE` has it. -/
theorem covered_blockedRanges_held {v : Inet} (hin : pool.cidr.holds v = true)
    (hgateway : ∀ g ∈ pool.gateway, pool.cidr.holds g = true) :
    Covered (blockedRanges pool.cidr.toNetwork pool.gateway (poolExclusions t pool) (unavailableInets t pool)) v.ip ↔
      Covered (forbiddenOffsets t pool) ((v.ip : Int) - pool.cidr.base) ∨
        ∃ a ∈ t.addresses, a.poolId = pool.id ∧ a.state ≠ .available ∧ a.address.ip = v.ip := by
  obtain ⟨hversion, -, -⟩ := (Network.holds_iff _ _).mp hin
  have hgate : (∃ g ∈ pool.gateway, (v.ip : Int) = g.ip) ↔ pool.gateway = some v := by
    constructor
    · rintro ⟨g, hg, hip⟩
      obtain ⟨hsame, -, -⟩ := (Network.holds_iff _ _).mp (hgateway g hg)
      have heq : g = v := inet_ext (hsame.trans hversion.symm) (Int.ofNat.inj hip).symm
      rwa [heq] at hg
    · exact fun h => ⟨v, h, rfl⟩
  have hrows : (∃ a ∈ t.addresses, a.poolId = pool.id ∧ a.state ≠ .available ∧ (v.ip : Int) = a.address.ip) ↔
      ∃ a ∈ t.addresses, a.poolId = pool.id ∧ a.state ≠ .available ∧ a.address.ip = v.ip := by
    simp only [Nat.cast_inj, @eq_comm _ v.ip]
  rw [covered_blockedRanges, covered_forbidden hin hgateway, not_usable, hgate, hrows]
  simp only [Excluded, Nat.cast_inj, Nat.cast_le, or_assoc]

/-- A network ends inside its family. -/
theorem network_end (n : Network) : n.base + n.numAddresses ≤ 2 ^ n.version.bits := by
  obtain ⟨q, hq⟩ := n.aligned
  have hsize : 2 ^ n.networkAddress.version.bits =
      2 ^ (n.networkAddress.version.bits - n.prefixlen) * 2 ^ n.prefixlen := by
    rw [← pow_add, Nat.sub_add_cancel n.lenLe]
  have hlt : 2 ^ (n.networkAddress.version.bits - n.prefixlen) * q <
      2 ^ (n.networkAddress.version.bits - n.prefixlen) * 2 ^ n.prefixlen := by
    rw [← hq, ← hsize]
    exact n.networkAddress.lt
  have hq' : q + 1 ≤ 2 ^ n.prefixlen := Nat.lt_of_mul_lt_mul_left hlt
  show n.networkAddress.ip + 2 ^ (n.networkAddress.version.bits - n.prefixlen) ≤ 2 ^ n.networkAddress.version.bits
  rw [hsize, hq, ← Nat.mul_succ]
  exact Nat.mul_le_mul_left _ hq'

/-- A number between the ends of a network is an address of it. -/
theorem exists_held {n : Network} {x : Int} (hx : x ∈ Finset.Icc (n.base : Int) n.broadcast) :
    ∃ v, n.holds v = true ∧ (v.ip : Int) = x := by
  obtain ⟨hlow, hhigh⟩ := Finset.mem_Icc.mp hx
  have hpos := n.numAddresses_pos
  have hend := network_end n
  unfold Network.broadcast at hhigh
  have hlt : x.toNat < 2 ^ n.version.bits := by omega
  exact ⟨⟨n.version, x.toNat, hlt⟩, (Network.holds_iff _ _).mpr ⟨rfl, by dsimp only; omega, by dsimp only; omega⟩,
    Int.toNat_of_nonneg (by omega)⟩

theorem held_mem {n : Network} {v : Inet} (h : n.holds v = true) :
    (v.ip : Int) ∈ Finset.Icc (n.base : Int) n.broadcast := by
  obtain ⟨-, hlow, hhigh⟩ := (Network.holds_iff _ _).mp h
  have hpos := n.numAddresses_pos
  unfold Network.broadcast
  rw [Finset.mem_Icc]
  omega

/-- An address of a pool lies in its network. -/
theorem row_held (hc : Consistent t) (hpool : pool ∈ t.pools) {a : IpAddress} (ha : a ∈ t.addresses)
    (hin : a.poolId = pool.id) : pool.cidr.holds a.address = true := by
  obtain ⟨p, hp, hid, hholds, -⟩ := hc.placed.pool a ha
  have heq : p = pool := Table.eq_of_key hp hpool (hid.trans hin)
  rwa [heq] at hholds

/-- Two rows of a pool with the same number are one row. -/
theorem row_unique (hc : Consistent t) (hpool : pool ∈ t.pools) {a b : IpAddress} (ha : a ∈ t.addresses)
    (hb : b ∈ t.addresses) (hap : a.poolId = pool.id) (hbp : b.poolId = pool.id)
    (hip : a.address.ip = b.address.ip) : a = b := by
  obtain ⟨hva, -, -⟩ := (Network.holds_iff _ _).mp (row_held hc hpool ha hap)
  obtain ⟨hvb, -, -⟩ := (Network.holds_iff _ _).mp (row_held hc hpool hb hbp)
  have haddress : a.address = b.address := inet_ext (hva.trans hvb.symm) hip
  exact Table.eq_of_key ha hb (hc.placed.unique a ha b hb (hap.trans hbp.symm) haddress)

theorem mem_allocatable {x : Int} : x ∈ allocatable t pool ↔
    x ∈ Finset.Icc (pool.cidr.base : Int) pool.cidr.broadcast ∧ Allocatable t pool x := by
  simp only [allocatable, Finset.mem_filter]

/-- **The count** is of what can be allocated and is not forbidden. -/
theorem availableCount_eq (hc : Consistent t) (hchecked : Checked t.pools) (hpool : pool ∈ t.pools) :
    availableCount t pool = ((allocatable t pool).filter fun x =>
      ¬ Covered (forbiddenOffsets t pool) (x - pool.cidr.base)).card := by
  have hsame : (Finset.Icc (pool.cidr.base : Int) pool.cidr.broadcast).filter (fun x => ¬ Covered
      (blockedRanges pool.cidr.toNetwork pool.gateway (poolExclusions t pool) (unavailableInets t pool)) x) =
        (allocatable t pool).filter fun x => ¬ Covered (forbiddenOffsets t pool) (x - pool.cidr.base) := by
    ext x
    simp only [Finset.mem_filter, mem_allocatable, and_assoc]
    apply and_congr_right
    intro hx
    obtain ⟨v, hin, rfl⟩ := exists_held hx
    rw [covered_blockedRanges_held hin (hchecked.gateway pool hpool), not_or]
    constructor
    · rintro ⟨hallowed, hnone⟩
      refine ⟨?_, hallowed⟩
      by_cases hstanding : Standing t pool v.ip
      · obtain ⟨a, ha, hap, hip⟩ := hstanding
        have hstate : a.state = .available := by
          by_contra hstate
          exact hnone ⟨a, ha, hap, hstate, Int.ofNat_inj.mp hip⟩
        exact Or.inl ⟨a, ha, hap, hstate, hip⟩
      · exact Or.inr ⟨hstanding, hallowed⟩
    · rintro ⟨hallocatable, hallowed⟩
      refine ⟨hallowed, ?_⟩
      rintro ⟨a, ha, hap, hstate, hip⟩
      rcases hallocatable with ⟨b, hb, hbp, hfree, hip'⟩ | ⟨hstanding, -⟩
      · have hab : a = b := row_unique hc hpool ha hb hap hbp (by omega)
        rw [hab] at hstate
        exact hstate hfree
      · exact hstanding ⟨a, ha, hap, by omega⟩
  unfold availableCount
  rw [availableAddressCount_eq, ← hsame]

theorem forbiddenStandby_iff (hc : Consistent t) (hchecked : Checked t.pools) (hpool : pool ∈ t.pools) :
    ForbiddenStandby t pool ↔ ∃ x ∈ allocatable t pool, Covered (forbiddenOffsets t pool) (x - pool.cidr.base) := by
  constructor
  · rintro ⟨a, ha, hap, hstate, hforbidden⟩
    have hin := row_held hc hpool ha hap
    refine ⟨a.address.ip, mem_allocatable.mpr ⟨held_mem hin, Or.inl ⟨a, ha, hap, hstate, rfl⟩⟩, ?_⟩
    exact (covered_forbidden hin (hchecked.gateway pool hpool)).mpr hforbidden
  · rintro ⟨x, hx, hcovered⟩
    rcases (mem_allocatable.mp hx).2 with ⟨a, ha, hap, hstate, rfl⟩ | ⟨-, hnot⟩
    · have hin := row_held hc hpool ha hap
      exact ⟨a, ha, hap, hstate, (covered_forbidden hin (hchecked.gateway pool hpool)).mp hcovered⟩
    · exact absurd hcovered hnot

/-- The count is right unless an `AVAILABLE` row is forbidden. -/
theorem availableCount_exact (hc : Consistent t) (hchecked : Checked t.pools) (hpool : pool ∈ t.pools) :
    availableCount t pool = (allocatable t pool).card ↔ ¬ ForbiddenStandby t pool := by
  rw [availableCount_eq hc hchecked hpool, forbiddenStandby_iff hc hchecked hpool, Int.ofNat_inj,
    Finset.card_filter_eq_iff]
  push Not
  rfl

end Counts

/-! ### One address is taken -/

/-- The row of one address changes, or is new; it is not `AVAILABLE` any more. -/
structure Taken (t t' : IpamTables) (pool : IpPool) (a : IpAddress) : Prop where
  mem : (a.address.ip : Int) ∈ allocatable t pool
  inPool : a.poolId = pool.id
  held : a.state ≠ .available
  rows : ∀ b, b ∈ t'.addresses ↔ b ∈ t.addresses ∧ b.id ≠ a.id ∨ b = a
  replaced : ∀ b ∈ t.addresses, b.id = a.id → b.poolId = a.poolId ∧ b.address = a.address
  alone : ∀ b ∈ t.addresses, b.poolId = pool.id → b.address.ip = a.address.ip → b.id = a.id
  exclusions : t'.exclusions = t.exclusions

section Taking
variable {t t' : IpamTables} {pool : IpPool} {a : IpAddress}

theorem Taken.standing (h : Taken t t' pool a) {x : Int} :
    Standing t' pool x ↔ Standing t pool x ∨ x = a.address.ip := by
  constructor
  · rintro ⟨b, hb, hbp, rfl⟩
    rcases (h.rows b).mp hb with ⟨hold, -⟩ | rfl
    · exact Or.inl ⟨b, hold, hbp, rfl⟩
    · exact Or.inr rfl
  · have hnew : Standing t' pool a.address.ip := ⟨a, (h.rows a).mpr (Or.inr rfl), h.inPool, rfl⟩
    rintro (⟨b, hb, hbp, rfl⟩ | rfl)
    · by_cases hid : b.id = a.id
      · rwa [(h.replaced b hb hid).2]
      · exact ⟨b, (h.rows b).mpr (Or.inl ⟨hb, hid⟩), hbp, rfl⟩
    · exact hnew

theorem Taken.standby (h : Taken t t' pool a) {x : Int} :
    Standby t' pool x ↔ Standby t pool x ∧ x ≠ a.address.ip := by
  constructor
  · rintro ⟨b, hb, hbp, hstate, rfl⟩
    rcases (h.rows b).mp hb with ⟨hold, hid⟩ | rfl
    · refine ⟨⟨b, hold, hbp, hstate, rfl⟩, fun hip => ?_⟩
      exact hid (h.alone b hold hbp (Int.ofNat_inj.mp hip))
    · exact absurd hstate h.held
  · rintro ⟨⟨b, hb, hbp, hstate, rfl⟩, hne⟩
    refine ⟨b, (h.rows b).mpr (Or.inl ⟨hb, fun hid => ?_⟩), hbp, hstate, rfl⟩
    exact hne (by rw [(h.replaced b hb hid).2])

/-- **One address less** can be allocated. -/
theorem Taken.allocatable (h : Taken t t' pool a) :
    allocatable t' pool = (allocatable t pool).erase (a.address.ip : Int) := by
  have hforbidden : forbiddenOffsets t' pool = forbiddenOffsets t pool := by
    unfold forbiddenOffsets exclusionBounds
    rw [h.exclusions]
  ext x
  rw [Finset.mem_erase, mem_allocatable, mem_allocatable]
  unfold Allocatable
  rw [h.standing, h.standby, hforbidden]
  tauto

theorem Taken.card (h : Taken t t' pool a) : (Observability.allocatable t' pool).card + 1 = (Observability.allocatable t pool).card := by
  rw [h.allocatable]
  exact Finset.card_erase_add_one h.mem

/-- No row becomes `AVAILABLE`. -/
theorem Taken.forbiddenStandby (h : Taken t t' pool a) (hforbidden : ForbiddenStandby t' pool) :
    ForbiddenStandby t pool := by
  obtain ⟨b, hb, hbp, hstate, hnot⟩ := hforbidden
  rcases (h.rows b).mp hb with ⟨hold, -⟩ | rfl
  · rw [h.exclusions] at hnot
    exact ⟨b, hold, hbp, hstate, hnot⟩
  · exact absurd hstate h.held

/-- The offset of a pool forbids nothing. -/
theorem forbiddenStandby_moved {next : Nat} (h : ForbiddenStandby t (movedOffset next pool)) :
    ForbiddenStandby t pool := by
  obtain ⟨a, ha, hap, hstate, hnot⟩ := h
  refine ⟨a, ha, hap, hstate, hnot.imp_left fun husable hpool => ?_⟩
  exact husable ⟨hpool.base, hpool.broadcast, hpool.gateway⟩

/-- What `_automatic_candidate` finds: a row that can be taken. -/
structure Offered (t t' : IpamTables) (pool : IpPool) (a : IpAddress) : Prop where
  free : a.state = .available
  unheld : ∀ l ∈ t.allocations, l.status.active = true → l.ipAddressId ≠ a.id
  allocations : t'.allocations = t.allocations
  pools : ∃ next, t'.pools.get? pool.id = some (movedOffset next pool)
  taken : ∀ f allocations, (f a).id = a.id ∧ (f a).poolId = a.poolId ∧ (f a).address = a.address →
    (f a).state ≠ .available → Taken t { updateAddress t' a.id f with allocations := allocations } pool (f a)

/-- An `AVAILABLE` row is offered as it is. -/
theorem offered_row (hc : Consistent t) (hpool : t.pools.get? pool.id = some pool) (ha : a ∈ t.addresses)
    (hin : a.poolId = pool.id) (hfree : a.state = .available) : Offered t t pool a := by
  have hmem := Table.get?_mem hpool
  constructor
  · exact hfree
  · intro l hl hactive hid
    have hstate := hc.agreement.matched a ha l hl hid hactive
    have hheld := l.status.held_addressState
    rw [← hstate, hfree, hactive] at hheld
    cases hheld
  · rfl
  · exact ⟨pool.nextOffset, hpool⟩
  · intro f allocations hkeeps hheld
    have hrows (b : IpAddress) : b ∈ t.addresses.update a.id f ↔ b ∈ t.addresses ∧ b.id ≠ a.id ∨ b = f a :=
      Table.mem_update_of_get (Table.get?_of_mem ha) hkeeps.1
    constructor
    · rw [hkeeps.2.2]
      exact mem_allocatable.mpr ⟨held_mem (row_held hc hmem ha hin), Or.inl ⟨a, ha, hin, hfree, rfl⟩⟩
    · exact hkeeps.2.1.trans hin
    · exact hheld
    · intro b
      rw [hkeeps.1]
      exact hrows b
    · intro b hb hid
      rw [Table.eq_of_key hb ha (hid.trans hkeeps.1)]
      exact ⟨hkeeps.2.1.symm, hkeeps.2.2.symm⟩
    · intro b hb hbp hip
      rw [hkeeps.2.2] at hip
      rw [hkeeps.1, row_unique hc hmem hb ha hbp hin hip]
    · rfl

/-- A new row is offered where nothing blocks its offset. -/
theorem offered_new {offset : Nat} {id : Uuid} (hc : Consistent t) (hpool : t.pools.get? pool.id = some pool)
    (hid : t.addresses.get? id = none) (hlt : offset < pool.cidr.numAddresses)
    (hfree : ¬ Covered (blockedOffsets t pool) offset) (next : Nat) :
    ∃ v t', addressAt pool.cidr.toNetwork offset = .ok v ∧
      insertAddress { t with pools := t.pools.update pool.id (movedOffset next) } (availableAddress id pool.id v) = .ok t' ∧
        Offered t t' pool (availableAddress id pool.id v) := by
  have hmem := Table.get?_mem hpool
  have hend := network_end pool.cidr.toNetwork
  have hbound : pool.cidr.base + offset < 2 ^ pool.cidr.version.bits := by omega
  have hat : addressAt pool.cidr.toNetwork offset = .ok ⟨pool.cidr.version, pool.cidr.base + offset, hbound⟩ :=
    dif_pos hbound
  have hholds : pool.cidr.holds ⟨pool.cidr.version, pool.cidr.base + offset, hbound⟩ = true :=
    (Network.holds_iff _ _).mpr ⟨rfl, Nat.le_add_right _ _, Nat.add_lt_add_left hlt _⟩
  obtain ⟨v, hv⟩ : ∃ v : Inet, v = ⟨pool.cidr.version, pool.cidr.base + offset, hbound⟩ := ⟨_, rfl⟩
  rw [← hv] at hat hholds
  have hip : (v.ip : Int) = pool.cidr.base + offset := by
    rw [hv]
    rfl
  -- The offset says that the address is not forbidden and has no row.
  have hopen : ¬ Covered (forbiddenOffsets t pool) ((v.ip : Int) - pool.cidr.base) ∧ ¬ Standing t pool v.ip := by
    rw [← not_or, ← covered_blockedOffsets]
    rwa [show (v.ip : Int) - pool.cidr.base = offset by omega]
  have hnone : ∀ b ∈ t.addresses, b.poolId = pool.id → b.address.ip ≠ v.ip :=
    fun b hb hbp he => hopen.2 ⟨b, hb, hbp, by rw [he]⟩
  obtain ⟨addresses, hinsert⟩ := Table.insert_new (r := availableAddress id pool.id v) hid
  have hunique : AddressesUnique addresses := by
    intro b hb c hcc hpools haddress
    rcases (Table.mem_insert hinsert).mp hb with hb | rfl
    · rcases (Table.mem_insert hinsert).mp hcc with hcc | rfl
      · exact hc.placed.unique b hb c hcc hpools haddress
      · exact absurd (congrArg Inet.ip haddress) (hnone b hb hpools)
    · rcases (Table.mem_insert hinsert).mp hcc with hcc | rfl
      · exact absurd (congrArg Inet.ip haddress).symm (hnone c hcc hpools.symm)
      · rfl
  have hget : (t.pools.update pool.id (movedOffset next)).get? pool.id = some (movedOffset next pool) :=
    Table.get?_update_same hpool rfl
  refine ⟨v, { t with pools := t.pools.update pool.id (movedOffset next), addresses := addresses }, hat, ?_, ?_⟩
  · simp [insertAddress, hinsert, hunique, orRaise, raiseIf, bind, Except.bind, pure, Except.pure]
  · have hnew : ∀ b ∈ t.addresses, b.id ≠ id := Table.get?_eq_none.mp hid
    constructor
    · rfl
    · intro l hl _ hlid
      obtain ⟨b, hb, hbid⟩ := hc.agreement.located l hl
      exact hnew b hb (hbid.trans hlid)
    · rfl
    · exact ⟨next, hget⟩
    · intro f allocations hkeeps hheld
      have hfound : addresses.get? id = some (availableAddress id pool.id v) := Table.get?_insert_same hinsert
      have hrows (b : IpAddress) : b ∈ addresses.update id f ↔
          b ∈ addresses ∧ b.id ≠ id ∨ b = f (availableAddress id pool.id v) :=
        Table.mem_update_of_get hfound hkeeps.1
      constructor
      · rw [hkeeps.2.2]
        exact mem_allocatable.mpr ⟨held_mem hholds, Or.inr hopen.symm⟩
      · exact hkeeps.2.1
      · exact hheld
      · intro b
        rw [hkeeps.1]
        show b ∈ addresses.update id f ↔ b ∈ t.addresses ∧ b.id ≠ id ∨ _
        rw [hrows, Table.mem_insert hinsert]
        apply or_congr_left
        constructor
        · rintro ⟨hb | rfl, hne⟩
          · exact ⟨hb, hne⟩
          · exact absurd rfl hne
        · exact fun h => ⟨Or.inl h.1, h.2⟩
      · intro b hb hbid
        exact absurd (hbid.trans hkeeps.1) (hnew b hb)
      · intro b hb hbp he
        rw [hkeeps.2.2] at he
        exact absurd he (hnone b hb hbp)
      · rfl

/-- **The automatic choice**: an address that can be allocated, or none is left. -/
theorem automaticCandidate_offers {draws : Draws} (hc : Consistent t) (hpool : t.pools.get? pool.id = some pool)
    (hid : t.addresses.get? (draws.uuid 0) = none) :
    (allocatable t pool = ∅ ∧ automaticCandidate t pool draws = .error (.app
        ⟨409, "IP_POOL_EXHAUSTED", "No allocatable IP address remains in the pool.", []⟩)) ∨
      ∃ t' a, automaticCandidate t pool draws = .ok (t', a) ∧ Offered t t' pool a := by
  have hmem := Table.get?_mem hpool
  have hnext := hc.placed.offset pool hmem
  unfold automaticCandidate
  cases hleast : leastAvailable t pool.id with
  | some a =>
    obtain ⟨ha, hin, hfree⟩ := leastAvailable_some hleast
    exact Or.inr ⟨t, a, rfl, offered_row hc hpool ha hin hfree⟩
  | none =>
    cases hoffset : chosenOffset t pool draws.random with
    | none =>
      refine Or.inl ⟨?_, rfl⟩
      have hall : ∀ x, 0 ≤ x → x < (pool.cidr.numAddresses : Int) → Covered (blockedOffsets t pool) x := by
        unfold chosenOffset at hoffset
        have hsearch := (Option.or_eq_none_iff.mp hoffset).2
        rw [Option.map_eq_none_iff] at hsearch
        exact (firstFreeOffset_exact (by omega) (by omega) _).2.mp hsearch
      apply Finset.eq_empty_of_forall_notMem
      intro x hx
      obtain ⟨hin, hallocatable⟩ := mem_allocatable.mp hx
      rcases hallocatable with ⟨a, ha, hap, hfree, -⟩ | ⟨hstanding, hallowed⟩
      · exact leastAvailable_none hleast a ha hap hfree
      · obtain ⟨v, hv, rfl⟩ := exists_held hin
        obtain ⟨-, hlow, hhigh⟩ := (Network.holds_iff _ _).mp hv
        rcases covered_blockedOffsets.mp (hall ((v.ip : Int) - pool.cidr.base) (by omega) (by omega)) with h | h
        · exact hallowed h
        · exact hstanding h
    | some offset =>
      obtain ⟨v, t', hat, hinsert, hoffered⟩ := offered_new hc hpool hid (chosenOffset_lt hnext hoffset)
        (chosenOffset_free hnext hoffset) ((offset + 1) % pool.cidr.numAddresses)
      right
      refine ⟨t', availableAddress (draws.uuid 0) pool.id v, ?_, hoffered⟩
      simp only [orRaise, hat, hinsert, bind, Except.bind, pure, Except.pure]

end Taking

/-! ### A request has one active allocation -/

section Requests
variable {t t' : IpamTables}

/-- Allocations stay, or one of them goes on with the same request. -/
theorem uqRequest_update {allocations : Table IpAllocation} (h : UqActiveProvisioningRequest allocations) {k : Uuid}
    {g : IpAllocation → IpAllocation} (hid : ∀ l, (g l).id = l.id)
    (hrequest : ∀ l, (g l).provisioningRequestId = l.provisioningRequestId)
    (hactive : ∀ l ∈ allocations, l.id = k → (g l).status.active = true → l.status.active = true) :
    UqActiveProvisioningRequest (allocations.update k g) := by
  have back {m : IpAllocation} (hm : m ∈ allocations.update k g) (hm' : m.status.active = true) :
      ∃ l ∈ allocations, l.id = m.id ∧ l.provisioningRequestId = m.provisioningRequestId ∧ l.status.active = true := by
    obtain ⟨l, hl, rfl⟩ := Table.mem_update.mp hm
    by_cases hk : l.id = k
    · rw [Table.amend_of_key hk (hid l)] at hm' ⊢
      exact ⟨l, hl, (hid l).symm, (hrequest l).symm, hactive l hl hk hm'⟩
    · rw [Table.amend_of_ne g hk] at hm' ⊢
      exact ⟨l, hl, rfl, rfl, hm'⟩
  intro a ha b hb hactiveA hactiveB hsome hsame
  obtain ⟨l, hl, hlid, hlrequest, hlactive⟩ := back ha hactiveA
  obtain ⟨m, hm, hmid, hmrequest, hmactive⟩ := back hb hactiveB
  rw [← hlid, ← hmid]
  exact h l hl m hm hlactive hmactive (by rwa [hlrequest]) (by rw [hlrequest, hmrequest, hsame])

theorem uqRequest_insert {db : Db} {l : IpAllocation} (h : insertAllocation db t l = .ok t') :
    UqActiveProvisioningRequest t'.allocations := by
  simp only [insertAllocation, bind_ok, orRaise_ok, raiseIf_ok, pure_ok, not_not] at h
  obtain ⟨-, -, allocations, -, -, ⟨-, hrequests⟩, rfl⟩ := h
  exact hrequests

variable {db : Db}

/-- Both rows of an allocation change. -/
theorem uqRequest_both {l : IpAllocation} {k : Uuid} {f : IpAddress → IpAddress} {g : IpAllocation → IpAllocation}
    (h : UqActiveProvisioningRequest t.allocations) (hl : l ∈ t.allocations) (hactive : l.status.active = true)
    (hid : ∀ l, (g l).id = l.id) (hrequest : ∀ l, (g l).provisioningRequestId = l.provisioningRequestId) :
    UqActiveProvisioningRequest (updateAddress (updateAllocation t l.id g) k f).allocations := by
  apply uqRequest_update h hid hrequest
  intro m hm hmid _
  rwa [Table.eq_of_key hm hl hmid]

/-- **Every call** leaves a request with one active allocation at most. -/
theorem act_uqRequest (h : UqActiveProvisioningRequest db.ipam.allocations) (a : IpamAction) :
    UqActiveProvisioningRequest (act db a).ipam.allocations := by
  cases a with
  | other f => exact h
  | call svc draws c =>
    cases c with
    | createPool payload =>
      apply keeps_of (P := fun t => UqActiveProvisioningRequest t.allocations) h
      intro o ho
      simp only [bind_ok, onIntegrity_ok, pure_ok] at ho
      obtain ⟨_, -, -, -, -, -, -, -, -, -, -, -, t', hinsert, rfl⟩ := ho
      simp only [insertPool, bind_ok, pure_ok] at hinsert
      obtain ⟨_, -, -, -, _, -, -, -, rfl⟩ := hinsert
      exact h
    | updatePool poolId payload =>
      apply keeps_of (P := fun t => UqActiveProvisioningRequest t.allocations) h
      intro o ho
      simp only [bind_ok, pure_ok] at ho
      obtain ⟨_, -, -, -, _, -, -, -, -, -, -, -, -, -, -, -, -, -, -, -, rfl⟩ := ho
      exact h
    | deletePool poolId version =>
      apply keeps_of (P := fun t => UqActiveProvisioningRequest t.allocations) h
      intro o ho
      simp only [bind_ok, pure_ok] at ho
      obtain ⟨_, -, -, -, -, -, rfl⟩ := ho
      exact h
    | reserveAddress poolId address reason =>
      apply keeps_of (P := fun t => UqActiveProvisioningRequest t.allocations) h
      intro o ho
      simp only [bind_ok] at ho
      obtain ⟨_, -, candidate, -, ho⟩ := ho
      split at ho
      · simp only [bind_ok, pure_ok] at ho
        obtain ⟨-, -, rfl⟩ := ho
        exact h
      · simp only [bind_ok, pure_ok] at ho
        obtain ⟨t', hinsert, rfl⟩ := ho
        obtain ⟨addresses, -, -, rfl⟩ := insertAddress_ok hinsert
        exact h
    | allocate poolId workloadId requested =>
      apply keeps_of (P := fun t => UqActiveProvisioningRequest t.allocations) h
      intro o ho
      simp only [bind_ok, onIntegrity_ok, pure_ok, Prod.exists] at ho
      obtain ⟨_, -, _, -, -, -, t', a, -, -, -, t'', hinsert, rfl⟩ := ho
      exact uqRequest_insert hinsert
    | reserveForProvisioning poolId requestId requested =>
      apply keeps_of (P := fun t => UqActiveProvisioningRequest t.allocations) h
      intro o ho
      simp only [bind_ok] at ho
      obtain ⟨_, -, ho⟩ := ho
      split at ho
      · simp only [bind_ok, pure_ok] at ho
        obtain ⟨_, -, rfl⟩ := ho
        exact h
      · simp only [bind_ok, onIntegrity_ok, pure_ok, Prod.exists] at ho
        obtain ⟨t', a, -, -, -, t'', hinsert, rfl⟩ := ho
        exact uqRequest_insert hinsert
    | confirmProvisioningIp requestId workloadId =>
      apply keeps_of (P := fun t => UqActiveProvisioningRequest t.allocations) h
      intro o ho
      split at ho
      · split at ho <;> cases ho
        exact h
      · next l hl =>
        simp only [bind_ok, pure_ok] at ho
        obtain ⟨_, -, _, -, rfl⟩ := ho
        obtain ⟨hmem, -, hstatus⟩ := requestAllocation_some hl
        have hreserved : l.status = .reserved := by simpa using hstatus
        exact uqRequest_both h hmem (by rw [hreserved]; rfl) (fun _ => rfl) fun _ => rfl
    | quarantineProvisioningIp requestId =>
      apply keeps_of (P := fun t => UqActiveProvisioningRequest t.allocations) h
      intro o ho
      split at ho
      · cases ho
        exact h
      · next l hl =>
        simp only [bind_ok, pure_ok] at ho
        obtain ⟨_, -, _, -, rfl⟩ := ho
        obtain ⟨hmem, -, hstatus⟩ := requestAllocation_some hl
        have hreserved : l.status = .reserved := by simpa using hstatus
        exact uqRequest_both h hmem (by rw [hreserved]; rfl) (fun _ => rfl) fun _ => rfl
    | release allocationId reason =>
      apply keeps_of (P := fun t => UqActiveProvisioningRequest t.allocations) h
      intro o ho
      simp only [bind_ok, orRaise_ok] at ho
      obtain ⟨l, hl, _, -, _, -, ho⟩ := ho
      split at ho
      · cases ho
        exact h
      · next hstatus =>
        cases ho
        have hactive : l.status.active = true := by
          rw [not_or] at hstatus
          cases hs : l.status with
          | reserved | assigned | quarantined => rfl
          | released => exact absurd hs hstatus.1
        exact uqRequest_both h (Table.get?_mem hl) hactive (fun _ => rfl) fun _ => rfl
    | approveRelease addressId =>
      apply keeps_of (P := fun t => UqActiveProvisioningRequest t.allocations) h
      intro o ho
      simp only [bind_ok, orRaise_ok, pure_ok] at ho
      obtain ⟨_, -, -, -, -, -, l, hl, _, -, rfl⟩ := ho
      obtain ⟨hmem, hp⟩ := Table.first_some hl
      simp only [Bool.and_eq_true, beq_iff_eq] at hp
      exact uqRequest_both h hmem (by rw [hp.2]; rfl) (fun _ => rfl) fun _ => rfl

theorem uqRequest_run (h : UqActiveProvisioningRequest db.ipam.allocations) (actions : List IpamAction) :
    UqActiveProvisioningRequest (run db actions).ipam.allocations := by
  induction actions generalizing db with
  | nil => exact h
  | cons a rest ih => exact ih (act_uqRequest h a)

end Requests

/-! ### Automatic calls -/

/-- Whom an address is for. -/
inductive AutomaticTarget where
  | workload (id : Uuid)
  | request (id : Uuid)

/-- A call that names no address: `allocate` or `reserve_for_provisioning`. -/
structure AutomaticCall where
  svc : IpamService
  draws : Draws
  target : AutomaticTarget

namespace AutomaticCall

def action (poolId : Uuid) (c : AutomaticCall) : IpamAction :=
  match c.target with
  | .workload id => .call c.svc c.draws (.allocate poolId id none)
  | .request id => .call c.svc c.draws (.reserveForProvisioning poolId id none)

/-- The address it answers with, or what it raises. -/
def answer (db : Db) (poolId : Uuid) (c : AutomaticCall) : Except Exn Inet :=
  match c.target with
  | .workload id => (c.svc.allocate db poolId id none c.draws).result.map fun r => r.address.inet
  | .request id => (c.svc.reserveForProvisioning db poolId id none c.draws).result.map fun r => r.1.address

/-- The workload is present and in the cluster of the pool; the request holds no address yet. -/
def Due (db : Db) (poolId : Uuid) : AutomaticTarget → Prop
  | .workload id => ∃ w, db.workloads.first (fun w => w.id == id && w.isPresent) = some w ∧
      ∀ p, db.ipam.pools.get? poolId = some p → ∀ c ∈ p.clusterId, w.clusterId = c
  | .request id => db.requests.get? id ≠ none ∧
      ∀ l ∈ db.ipam.allocations, l.provisioningRequestId = some id → l.status.active = false

/-- A call that only the pool can refuse: the identifiers it draws are new, and its target is due. -/
structure Ready (db : Db) (poolId : Uuid) (c : AutomaticCall) : Prop where
  address : db.ipam.addresses.get? (c.draws.uuid 0) = none
  allocation : db.ipam.allocations.get? (c.draws.uuid 1) = none
  due : Due db poolId c.target

end AutomaticCall

def exhausted : Exn :=
  .app ⟨409, "IP_POOL_EXHAUSTED", "No allocatable IP address remains in the pool.", []⟩

section Calls
variable {db : Db} {pool : IpPool}

/-- The allocation of an offered row is flushed. -/
theorem insertAllocation_new {t' : IpamTables} {a : IpAddress} {f : IpAddress → IpAddress} {l : IpAllocation}
    (hc : Consistent db.ipam) (huq : UqActiveProvisioningRequest db.ipam.allocations)
    (ho : Offered db.ipam t' pool a) (hid : db.ipam.allocations.get? l.id = none) (hon : l.ipAddressId = a.id)
    (hrequest : ∀ id ∈ l.provisioningRequestId, db.requests.get? id ≠ none)
    (hnone : ∀ id ∈ l.provisioningRequestId, ∀ m ∈ db.ipam.allocations, m.provisioningRequestId = some id →
      m.status.active = false) :
    ∃ allocations, insertAllocation db (updateAddress t' a.id f) l =
      .ok { updateAddress t' a.id f with allocations := allocations } := by
  have hsame : (updateAddress t' a.id f).allocations = db.ipam.allocations := ho.allocations
  obtain ⟨allocations, hinsert⟩ := Table.insert_new (r := l) hid
  have hsingle : UqActiveAddress allocations := by
    intro m hm n hn hma hna haddress
    rcases (Table.mem_insert hinsert).mp hm with hm | rfl
    · rcases (Table.mem_insert hinsert).mp hn with hn | rfl
      · exact hc.agreement.single m hm n hn hma hna haddress
      · exact absurd (haddress.trans hon) (ho.unheld m hm hma)
    · rcases (Table.mem_insert hinsert).mp hn with hn | rfl
      · exact absurd (haddress.symm.trans hon) (ho.unheld n hn hna)
      · rfl
  have hrequests : UqActiveProvisioningRequest allocations := by
    intro m hm n hn hma hna hsome heq
    rcases (Table.mem_insert hinsert).mp hm with hm | rfl
    · rcases (Table.mem_insert hinsert).mp hn with hn | rfl
      · exact huq m hm n hn hma hna hsome heq
      · obtain ⟨id, hreq⟩ := Option.ne_none_iff_exists'.mp hsome
        rw [hnone id (heq.symm.trans hreq) m hm hreq] at hma
        cases hma
    · rcases (Table.mem_insert hinsert).mp hn with hn | rfl
      · obtain ⟨id, hreq⟩ := Option.ne_none_iff_exists'.mp hsome
        rw [hnone id hreq n hn (heq.symm.trans hreq)] at hna
        cases hna
      · rfl
  have hfk : ¬ ∃ id ∈ l.provisioningRequestId, db.requests.get? id = none := by
    rintro ⟨id, hreq, hmissing⟩
    exact hrequest id hreq hmissing
  refine ⟨allocations, ?_⟩
  unfold insertAllocation
  rw [hsame]
  simp only [raiseIf, hfk, if_false, hinsert, orRaise, hsingle, hrequests, and_self, not_true_eq_false, bind,
    Except.bind, pure, Except.pure]

/-- What an automatic call comes to. -/
inductive Answered (db : Db) (pool : IpPool) (c : AutomaticCall) : Prop where
  | refused (none : allocatable db.ipam pool = ∅) (answer : c.answer db pool.id = .error exhausted)
      (same : act db (c.action pool.id) = db)
  | given (a : IpAddress) (taken : Taken db.ipam (act db (c.action pool.id)).ipam pool a)
      (answer : c.answer db pool.id = .ok a.address)
      (pools : ∃ next, (act db (c.action pool.id)).ipam.pools.get? pool.id = some (movedOffset next pool))

theorem lockedPool_active (hpool : db.ipam.pools.get? pool.id = some pool) (hactive : pool.isActive = true) :
    lockedPool db.ipam pool.id = .ok pool := by
  simp [lockedPool, hpool, hactive, orRaise, raiseIf, bind, Except.bind, pure, Except.pure]

theorem allocate_answered {svc : IpamService} {draws : Draws} {id : Uuid} (hc : Consistent db.ipam)
    (huq : UqActiveProvisioningRequest db.ipam.allocations) (hpool : db.ipam.pools.get? pool.id = some pool)
    (hactive : pool.isActive = true) (hready : AutomaticCall.Ready db pool.id ⟨svc, draws, .workload id⟩) :
    Answered db pool ⟨svc, draws, .workload id⟩ := by
  obtain ⟨w, hw, hcluster⟩ := hready.due
  have hcluster' : ¬ ∃ c ∈ pool.clusterId, w.clusterId ≠ c := by
    rintro ⟨c, hmem, hne⟩
    exact hne (hcluster pool hpool c hmem)
  have hlocked := lockedPool_active hpool hactive
  rcases automaticCandidate_offers hc hpool hready.address with ⟨hempty, hraise⟩ | ⟨t', a, hok, ho⟩
  · have hcall : svc.allocate db pool.id id none draws = ⟨db, .error exhausted⟩ := by
      unfold allocate
      simp only [hlocked, hw, orRaise, raiseIf, hcluster', if_false, candidateAddress, hraise, bind, Except.bind,
        Outcome.of]
      rfl
    refine .refused hempty ?_ ?_
    · show (svc.allocate db pool.id id none draws).result.map _ = _
      rw [hcall]
      rfl
    · show (svc.allocate db pool.id id none draws).db = db
      rw [hcall]
  · obtain ⟨next, hnext⟩ := ho.pools
    obtain ⟨allocations, hinsert⟩ := insertAllocation_new (f := assigned draws.now) (l :=
      { id := draws.uuid 1, ipAddressId := a.id, workloadId := some w.id, provisioningRequestId := none
        kind := allocationKind none, status := .assigned, allocatedById := svc.principal.userId
        allocatedAt := draws.serverNow, confirmedAt := some draws.now, releasedAt := none, releaseReason := none
        version := 1 }) hc huq ho hready.allocation rfl (fun _ hid => by cases hid) fun _ hid => by cases hid
    have htaken := ho.taken (assigned draws.now) allocations ⟨rfl, rfl, rfl⟩ fun hstate => by cases hstate
    have hdb : (svc.allocate db pool.id id none draws).db.ipam =
          { updateAddress t' a.id (assigned draws.now) with allocations := allocations } ∧
        (svc.allocate db pool.id id none draws).result.map (fun r => r.address.inet) = .ok a.address := by
      unfold allocate
      simp only [hlocked, hw, orRaise, raiseIf, hcluster', if_false, candidateAddress, hok, ho.free, ne_eq,
        not_true_eq_false, hinsert, onIntegrity, bind, Except.bind, Outcome.of]
      refine ⟨rfl, ?_⟩
      simp only [allocationResponse, shownAddress, Option.getD_none, ite_self]
      rfl
    refine .given (assigned draws.now a) ?_ hdb.2 ⟨next, ?_⟩
    · show Taken db.ipam (svc.allocate db pool.id id none draws).db.ipam pool (assigned draws.now a)
      rw [hdb.1]
      exact htaken
    · show (svc.allocate db pool.id id none draws).db.ipam.pools.get? pool.id = _
      rw [hdb.1]
      exact hnext

theorem reserveForProvisioning_answered {svc : IpamService} {draws : Draws} {id : Uuid} (hc : Consistent db.ipam)
    (huq : UqActiveProvisioningRequest db.ipam.allocations) (hpool : db.ipam.pools.get? pool.id = some pool)
    (hactive : pool.isActive = true) (hready : AutomaticCall.Ready db pool.id ⟨svc, draws, .request id⟩) :
    Answered db pool ⟨svc, draws, .request id⟩ := by
  obtain ⟨hrequest, hnone⟩ := hready.due
  have hlocked := lockedPool_active hpool hactive
  have hnew : requestAllocation db.ipam id [.reserved, .assigned] = none := by
    cases hfound : requestAllocation db.ipam id [.reserved, .assigned] with
    | none => rfl
    | some l =>
      obtain ⟨hmem, hreq, hstatus⟩ := requestAllocation_some hfound
      have hreleased := hnone l hmem hreq
      simp only [List.mem_cons, List.not_mem_nil, or_false] at hstatus
      rcases hstatus with hs | hs <;> rw [hs] at hreleased <;> cases hreleased
  rcases automaticCandidate_offers hc hpool hready.address with ⟨hempty, hraise⟩ | ⟨t', a, hok, ho⟩
  · have hcall : svc.reserveForProvisioning db pool.id id none draws = ⟨db, .error exhausted⟩ := by
      unfold reserveForProvisioning
      simp only [hlocked, hnew, candidateAddress, hraise, bind, Except.bind, Outcome.of]
      rfl
    refine .refused hempty ?_ ?_
    · show (svc.reserveForProvisioning db pool.id id none draws).result.map _ = _
      rw [hcall]
      rfl
    · show (svc.reserveForProvisioning db pool.id id none draws).db = db
      rw [hcall]
  · obtain ⟨next, hnext⟩ := ho.pools
    have hone : ∀ k ∈ some id, db.requests.get? k ≠ none := by
      rintro k hk
      cases hk
      exact hrequest
    have hfree : ∀ k ∈ some id, ∀ m ∈ db.ipam.allocations, m.provisioningRequestId = some k →
        m.status.active = false := by
      rintro k hk
      cases hk
      exact hnone
    obtain ⟨allocations, hinsert⟩ := insertAllocation_new (f := reserved draws.now) (l :=
      { id := draws.uuid 1, ipAddressId := a.id, workloadId := none, provisioningRequestId := some id
        kind := allocationKind none, status := .reserved, allocatedById := svc.principal.userId
        allocatedAt := draws.serverNow, confirmedAt := none, releasedAt := none, releaseReason := none
        version := 1 }) hc huq ho hready.allocation rfl hone hfree
    have htaken := ho.taken (reserved draws.now) allocations ⟨rfl, rfl, rfl⟩ fun hstate => by cases hstate
    have hdb : (svc.reserveForProvisioning db pool.id id none draws).db.ipam =
          { updateAddress t' a.id (reserved draws.now) with allocations := allocations } ∧
        (svc.reserveForProvisioning db pool.id id none draws).result.map (fun r => r.1.address) = .ok a.address := by
      unfold reserveForProvisioning
      simp only [hlocked, hnew, candidateAddress, hok, ho.free, raiseIf, ne_eq, not_true_eq_false, if_false,
        hinsert, onIntegrity, bind, Except.bind, Outcome.of]
      exact ⟨rfl, rfl⟩
    refine .given (reserved draws.now a) ?_ hdb.2 ⟨next, ?_⟩
    · show Taken db.ipam (svc.reserveForProvisioning db pool.id id none draws).db.ipam pool (reserved draws.now a)
      rw [hdb.1]
      exact htaken
    · show (svc.reserveForProvisioning db pool.id id none draws).db.ipam.pools.get? pool.id = _
      rw [hdb.1]
      exact hnext

/-- **An automatic call** that is ready takes one of the addresses that can be allocated, or finds
none. -/
theorem answered {c : AutomaticCall} (hc : Consistent db.ipam) (huq : UqActiveProvisioningRequest db.ipam.allocations)
    (hpool : db.ipam.pools.get? pool.id = some pool) (hactive : pool.isActive = true)
    (hready : c.Ready db pool.id) : Answered db pool c := by
  obtain ⟨svc, draws, target⟩ := c
  cases target with
  | workload id => exact allocate_answered hc huq hpool hactive hready
  | request id => exact reserveForProvisioning_answered hc huq hpool hactive hready

end Calls

/-! ### Calls one after the other -/

/-- What the calls answer, nothing else happening meanwhile. -/
def answers (db : Db) (poolId : Uuid) : List AutomaticCall → List (Except Exn Inet)
  | [] => []
  | c :: rest => c.answer db poolId :: answers (act db (c.action poolId)) poolId rest

/-- Every call is ready when its turn comes. -/
def AllReady (db : Db) (poolId : Uuid) : List AutomaticCall → Prop
  | [] => True
  | c :: rest => c.Ready db poolId ∧ AllReady (act db (c.action poolId)) poolId rest

/-- The first `n` calls are given `n` addresses, and the next one is refused. -/
structure Exhausts (answers : List (Except Exn Inet)) (n : Nat) : Prop where
  given : ∃ vs : List Inet, vs.length = n ∧ vs.Nodup ∧ answers.take n = vs.map .ok
  refused : answers[n]? = some (.error exhausted)

section Runs
variable {db : Db} {pool : IpPool}

theorem take_get {l : List (Except Exn Inet)} {vs : List Inet} {n i : Nat} (h : l.take n = vs.map .ok) (hi : i < n)
    {e : Exn} : l[i]? ≠ some (.error e) := by
  intro he
  have htake : (l.take n)[i]? = some (.error e) := by
    simpa [hi] using he
  rw [h] at htake
  simp at htake

theorem Exhausts.unique {l : List (Except Exn Inet)} {n m : Nat} (h : Exhausts l n) (h' : Exhausts l m) : n = m := by
  obtain ⟨vs, -, -, hvs⟩ := h.given
  obtain ⟨ws, -, -, hws⟩ := h'.given
  rcases Nat.lt_trichotomy n m with hlt | heq | hgt
  · exact absurd h.refused (take_get hws hlt)
  · exact heq
  · exact absurd h'.refused (take_get hvs hgt)

/-- **As many calls succeed as there are addresses that can be allocated.** -/
theorem answers_exhaust {calls : List AutomaticCall} (hc : Consistent db.ipam)
    (huq : UqActiveProvisioningRequest db.ipam.allocations) (hpool : db.ipam.pools.get? pool.id = some pool)
    (hactive : pool.isActive = true) (hready : AllReady db pool.id calls) :
    ∃ vs : List Inet, vs.Nodup ∧ (∀ v ∈ vs, (v.ip : Int) ∈ allocatable db.ipam pool) ∧
      vs.length = min (allocatable db.ipam pool).card calls.length ∧
      (answers db pool.id calls).take vs.length = vs.map .ok ∧
      ((allocatable db.ipam pool).card < calls.length →
        (answers db pool.id calls)[(allocatable db.ipam pool).card]? = some (.error exhausted)) := by
  induction calls generalizing db pool with
  | nil => exact ⟨[], List.nodup_nil, nofun, by simp, rfl, fun h => absurd h (Nat.not_lt_zero _)⟩
  | cons c rest ih =>
    obtain ⟨hfirst, hrest⟩ := hready
    cases answered hc huq hpool hactive hfirst with
    | refused hempty hanswer _ =>
      refine ⟨[], List.nodup_nil, nofun, by simp [hempty], rfl, fun _ => ?_⟩
      rw [hempty]
      exact congrArg some hanswer
    | given a htaken hanswer hpools =>
      obtain ⟨next, hnext⟩ := hpools
      have hcard := htaken.card
      obtain ⟨vs, hnodup, hmem, hlength, htake, hrefused⟩ := @ih _ (movedOffset next pool)
        (hc.moves (act_moves hc _)) (act_uqRequest huq _) hnext hactive hrest
      have hsame : allocatable (act db (c.action pool.id)).ipam (movedOffset next pool) =
          allocatable (act db (c.action pool.id)).ipam pool := rfl
      rw [hsame, htaken.allocatable] at hmem
      rw [hsame] at hlength hrefused
      refine ⟨a.address :: vs, List.nodup_cons.mpr ⟨fun hin => ?_, hnodup⟩, fun v hv => ?_, ?_, ?_, fun hlt => ?_⟩
      · exact absurd rfl (Finset.ne_of_mem_erase (hmem _ hin))
      · rcases List.mem_cons.mp hv with rfl | hv
        · exact htaken.mem
        · exact Finset.mem_of_mem_erase (hmem v hv)
      · rw [List.length_cons, List.length_cons, hlength]
        omega
      · show (c.answer db pool.id :: answers _ pool.id rest).take (vs.length + 1) = _
        rw [List.take_succ_cons, hanswer, List.map_cons]
        exact congrArg _ htake
      · rw [← hcard] at hlt ⊢
        exact hrefused (by simpa using hlt)

/-- The calls are exhausted by what can be allocated, and by nothing else. -/
theorem exhausts_iff {calls : List AutomaticCall} {n : Nat} (hc : Consistent db.ipam)
    (huq : UqActiveProvisioningRequest db.ipam.allocations) (hpool : db.ipam.pools.get? pool.id = some pool)
    (hactive : pool.isActive = true) (hready : AllReady db pool.id calls) :
    Exhausts (answers db pool.id calls) n ↔ n = (allocatable db.ipam pool).card ∧ n < calls.length := by
  obtain ⟨vs, hnodup, -, hlength, htake, hrefused⟩ := answers_exhaust hc huq hpool hactive hready
  have hsize : (answers db pool.id calls).length = calls.length := by
    clear hc huq hpool hready hlength htake hrefused
    induction calls generalizing db with
    | nil => rfl
    | cons c rest ih => exact congrArg (· + 1) ih
  constructor
  · intro h
    have hn : n < calls.length := by
      rw [← hsize]
      by_contra hnot
      have hrefused := h.refused
      simp [hnot] at hrefused
    refine ⟨?_, hn⟩
    by_cases hlt : (allocatable db.ipam pool).card < calls.length
    · have hall : Exhausts (answers db pool.id calls) (allocatable db.ipam pool).card :=
        ⟨⟨vs, by omega, hnodup, by rwa [hlength, Nat.min_eq_left hlt.le] at htake⟩, hrefused hlt⟩
      exact h.unique hall
    · exact absurd h.refused (take_get htake (by omega))
  · rintro ⟨rfl, hlt⟩
    exact ⟨⟨vs, by omega, hnodup, by rwa [hlength, Nat.min_eq_left hlt.le] at htake⟩, hrefused hlt⟩

end Runs

/-- What the reported count should mean: so many of the calls succeed, each on an address of its
own, before the pool is exhausted; and each call that succeeds lowers it by one. -/
structure Reported (db : Db) (pool : IpPool) (calls : List AutomaticCall) : Prop where
  exact : ∀ n : Nat, availableCount db.ipam pool = n ↔ Exhausts (answers db pool.id calls) n
  lowered : ∀ (c : AutomaticCall) (v : Inet), c.Ready db pool.id → c.answer db pool.id = .ok v →
    ∀ p, (act db (c.action pool.id)).ipam.pools.get? pool.id = some p →
      availableCount (act db (c.action pool.id)).ipam p = availableCount db.ipam pool - 1

theorem reported_of {db : Db} {pool : IpPool} {calls : List AutomaticCall} (hc : Consistent db.ipam)
    (hchecked : Checked db.ipam.pools) (huq : UqActiveProvisioningRequest db.ipam.allocations)
    (hpool : db.ipam.pools.get? pool.id = some pool) (hactive : pool.isActive = true)
    (hready : AllReady db pool.id calls) (hmany : availableCount db.ipam pool < calls.length) :
    Reported db pool calls ↔ ¬ ForbiddenStandby db.ipam pool := by
  have hmem := Table.get?_mem hpool
  have hexact := availableCount_exact hc hchecked hmem
  constructor
  · intro h
    rw [← hexact]
    have hcount := availableCount_eq hc hchecked hmem
    have hexhausts := (h.exact _).mp hcount
    rw [hcount, ((exhausts_iff hc huq hpool hactive hready).mp hexhausts).1]
  · intro hnone
    have hcount := hexact.mpr hnone
    constructor
    · intro n
      rw [exhausts_iff hc huq hpool hactive hready, hcount]
      omega
    · intro c v hc' hanswer p hp
      cases answered hc huq hpool hactive hc' with
      | refused _ hraise _ =>
        rw [hraise] at hanswer
        cases hanswer
      | given a htaken _ hpools =>
        obtain ⟨next, hnext⟩ := hpools
        rw [hp] at hnext
        cases hnext
        have hlater : availableCount (act db (c.action pool.id)).ipam (movedOffset next pool) =
            (allocatable (act db (c.action pool.id)).ipam (movedOffset next pool)).card :=
          (availableCount_exact (hc.moves (act_moves hc _)) (act_checked hchecked _) (Table.get?_mem hp)).mpr
            fun hforbidden => hnone (htaken.forbiddenStandby (forbiddenStandby_moved hforbidden))
        have hcard := htaken.card
        have hsame : allocatable (act db (c.action pool.id)).ipam (movedOffset next pool) =
            allocatable (act db (c.action pool.id)).ipam pool := rfl
        rw [hlater, hcount, hsame]
        omega

/-- **The reported count** is what can be allocated, unless an `AVAILABLE` row holds what is kept
for the network or excluded: the count leaves that row out, the allocation does not. -/
theorem reported_iff (db : Db) (actions : List IpamAction) (pool : IpPool) (calls : List AutomaticCall)
    (hpool : pool ∈ (run (fresh db) actions).ipam.pools) (hactive : pool.isActive = true)
    (hready : AllReady (run (fresh db) actions) pool.id calls)
    (hmany : availableCount (run (fresh db) actions).ipam pool < calls.length) :
    Reported (run (fresh db) actions) pool calls ↔ ¬ ForbiddenStandby (run (fresh db) actions).ipam pool := by
  have huq : UqActiveProvisioningRequest (fresh db).ipam.allocations :=
    fun l hl => absurd hl (Table.not_mem_empty l)
  exact reported_of (consistent_run (consistent_fresh db) actions) (checked_run checked_empty actions)
    (uqRequest_run huq actions) (Table.get?_of_mem hpool) hactive hready hmany

/-- Where no literal carries a scope id, the count is right. -/
theorem unscoped_reported (db : Db) (actions : List IpamAction) (pool : IpPool) (calls : List AutomaticCall)
    (hscope : ∀ a ∈ actions, a.unscoped) (hpool : pool ∈ (run (fresh db) actions).ipam.pools)
    (hactive : pool.isActive = true) (hready : AllReady (run (fresh db) actions) pool.id calls)
    (hmany : availableCount (run (fresh db) actions).ipam pool < calls.length) :
    Reported (run (fresh db) actions) pool calls := by
  have huq : UqActiveProvisioningRequest (fresh db).ipam.allocations :=
    fun l hl => absurd hl (Table.not_mem_empty l)
  apply (reported_of (consistent_run (consistent_fresh db) actions) (checked_run checked_empty actions)
    (uqRequest_run huq actions) (Table.get?_of_mem hpool) hactive hready hmany).mpr
  have hspace := inSpace_run db actions hscope
  rintro ⟨a, ha, hap, hstate, husable | hexcluded⟩
  · exact husable (hspace.usable pool hpool a ha hap)
  · exact hspace.included pool hpool a ha hap (by rw [hstate]; nofun) hexcluded

/-! ### Two small pools -/

theorem linkLocal_lt : 0xfe80 <<< 112 < 2 ^ Family.v6.bits := by decide

theorem v6_unscoped : Family.v6 = .v4 → (none : Option String) = none := fun _ => rfl

theorem narrow_fits : 126 ≤ Family.v6.bits := by decide

theorem narrow_aligned : 2 ^ (Family.v6.bits - 126) ∣ 0xfe80 <<< 112 := ⟨0xfe80 <<< 110, by decide⟩

/-- Four addresses of a link-local network, the second of them the gateway. -/
def narrow : IpPoolCreate :=
  { linkLocal with
    cidr := some
      { networkAddress := ⟨.v6, 0xfe80 <<< 112, none, linkLocal_lt, v6_unscoped⟩
        prefixlen := 126
        lenLe := narrow_fits
        aligned := narrow_aligned } }

def narrowPool : IpPool :=
  root.newPool narrow ⟨⟨.v6, 0xfe80 <<< 112, none, linkLocal_lt, v6_unscoped⟩, 126, narrow_fits, narrow_aligned⟩
    firstDraws

/-- A workload that is present, and a request that waits. -/
def waitingDb : Db := { sampleDb with requests := .single waitingRequest }

/-- The pool alone. -/
def narrowRun : List IpamAction := [.call root firstDraws (.createPool narrow)]

def callFor (first : Nat) (target : AutomaticTarget) : AutomaticCall :=
  ⟨root, ⟨700 * second, 0, fun n => n + first, fun _ => 3⟩, target⟩

/-- Two addresses for the workload, one of them for the request. -/
def threeCalls : List AutomaticCall :=
  [callFor 100 (.workload 20), callFor 110 (.request 90), callFor 120 (.workload 20)]

theorem ready_workload {db : Db} {first : Nat} (haddress : db.ipam.addresses.get? first = none)
    (hallocation : db.ipam.allocations.get? (1 + first) = none)
    (hworkload : db.workloads.first (fun w => w.id == 20 && w.isPresent) = some sampleWorkload)
    (hpool : (db.ipam.pools.get? 7).map IpPool.clusterId = some none) :
    (callFor first (.workload 20)).Ready db 7 := by
  refine ⟨by simpa [callFor] using haddress, hallocation, sampleWorkload, hworkload, fun p hp c hc => ?_⟩
  rw [hp] at hpool
  rw [Option.some_inj.mp hpool] at hc
  cases hc

theorem ready_request {db : Db} {first : Nat} (haddress : db.ipam.addresses.get? first = none)
    (hallocation : db.ipam.allocations.get? (1 + first) = none) (hrequest : db.requests.get? 90 ≠ none)
    (hnone : ∀ l ∈ db.ipam.allocations.rows, l.provisioningRequestId = some 90 → l.status.active = false) :
    (callFor first (.request 90)).Ready db 7 :=
  ⟨by simpa [callFor] using haddress, hallocation, hrequest, hnone⟩

theorem narrowPool_mem : narrowPool ∈ (run (fresh waitingDb) narrowRun).ipam.pools := by
  apply Table.mem_rows.mp
  decide +kernel

theorem threeCalls_ready : AllReady (run (fresh waitingDb) narrowRun) 7 threeCalls := by
  refine ⟨ready_workload ?_ ?_ ?_ ?_, ready_request ?_ ?_ ?_ ?_, ready_workload ?_ ?_ ?_ ?_, trivial⟩ <;>
    decide +kernel

theorem narrow_reported : Reported (run (fresh waitingDb) narrowRun) narrowPool threeCalls ↔
    ¬ ForbiddenStandby (run (fresh waitingDb) narrowRun).ipam narrowPool :=
  reported_iff waitingDb narrowRun narrowPool threeCalls narrowPool_mem rfl threeCalls_ready (by decide +kernel)

/-- The gateway, named with a scope id, is given out and taken back. -/
def gatewayRun : List IpamAction :=
  [.call root firstDraws (.createPool narrow),
    .call root ⟨0, 0, fun n => n + 30, fun _ => 0⟩ (.allocate 7 20 (some scopedGateway)),
    .call root ⟨0, 0, fun n => n + 40, fun _ => 0⟩ (.release 31 "wrong"),
    .call root ⟨611 * second, 0, fun n => n + 50, fun _ => 0⟩ (.approveRelease 30)]

/-- Two addresses are reported, and three are given out. -/
theorem gateway_not_reported : ¬ Reported (run (fresh waitingDb) gatewayRun) narrowPool threeCalls := by
  intro h
  have hcount : availableCount (run (fresh waitingDb) gatewayRun).ipam narrowPool = (2 : Nat) := by
    decide +kernel
  have hthird : ((answers (run (fresh waitingDb) gatewayRun) 7 threeCalls)[2]?).map (fun r => r.toOption.isSome) =
      some true := by
    decide +kernel
  have hrefused : (answers (run (fresh waitingDb) gatewayRun) 7 threeCalls)[2]? = some (.error exhausted) :=
    ((h.exact 2).mp hcount).refused
  rw [hrefused] at hthird
  cases hthird

end PveMaster.Observability
