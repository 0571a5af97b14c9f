import NetgameFormal.GateSteps
import NetgameFormal.HashidTable

/-!
# Where the slot probe goes

`hashid_insert` adds its counter to the id before it takes the remainder, both
as ints. Up to the largest int the indices go round the table. The next sum is
the smallest int, whose remainder is negative unless `cap` is a power of two.
-/

set_option autoImplicit false

namespace NetgameFormal

/-- Over a whole round the index stays in the table and meets every slot. -/
structure ProbeCovers (hi : Hashid) (id : Int) : Prop where
  in_table : ∀ i : Nat, i < hi.cap → 0 ≤ hashidIndex hi id i ∧ hashidIndex hi id i < hi.cap
  every_slot : ∀ c : Nat, c < hi.cap → ∃ i : Nat, i < hi.cap ∧ hashidIndex hi id i = c

/-- The loop computes its indices up to the one for `d`, all of them in the table, and stops at the
free slot `c`. -/
structure ProbeStops (hi : Hashid) (id : Int) (d c : Nat) : Prop where
  result : hashidProbe hi id hi.cap 0 = some c
  round : d < hi.cap
  in_table : ∀ i : Nat, i ≤ d → 0 ≤ hashidIndex hi id i ∧ hashidIndex hi id i < hi.cap
  occupied : ∀ i : Nat, i < d → (hi.id (hashidIndex hi id i).toNat).id ≠ -1
  index : hashidIndex hi id d = c
  free : (hi.id c).id = -1

def ProbeFinds (hi : Hashid) (id : Int) : Prop := ∃ d c, ProbeStops hi id d c

/-- The sum `i + id` is an int; or it is one more, and the smallest int has the remainder 0. -/
def SumFits (cap : Nat) (id : Int) (i : Nat) : Prop :=
  i + id ≤ 2 ^ 31 - 1 ∨ i + id = 2 ^ 31 ∧ (cap : Int) ∣ 2 ^ 31

variable {hi : Hashid} {id : Int}

/-! ## One index -/

theorem SumFits.mono {cap n i : Nat} (h : SumFits cap id n) (hle : i ≤ n) : SumFits cap id i := by
  unfold SumFits at h ⊢
  by_cases heq : i = n
  · rw [heq]
    exact h
  · omega

/-- Behind the largest int the remainder is that of a negative number. -/
theorem hashidIndex_of_ge {i : Nat} (hge : 2 ^ 31 ≤ i + id) (hlt : i + id < 2 ^ 32) :
    hashidIndex hi id i = -((2 ^ 32 - (i + id)) % hi.cap) := by
  have hbmod : Int.bmod (i + id) (2 ^ 32) = -(2 ^ 32 - (i + id)) := by
    rw [← Int.add_neg_bmod_self]
    have hsum : (i + id) + -((2 ^ 32 : Nat) : Int) = -(2 ^ 32 - (i + id)) := by omega
    rw [hsum]
    apply Int.bmod_eq_of_le <;> omega
  rw [hashidIndex, hbmod, Int.neg_tmod, Int.tmod_eq_emod_of_nonneg (by omega)]

theorem dvd_of_hashidIndex_nonneg {i : Nat} (hcap : 0 < hi.cap) (hge : 2 ^ 31 ≤ i + id)
    (hlt : i + id < 2 ^ 32) (h : 0 ≤ hashidIndex hi id i) :
    (hi.cap : Int) ∣ 2 ^ 32 - (i + id) := by
  rw [hashidIndex_of_ge hge hlt] at h
  have hnonneg := Int.emod_nonneg (2 ^ 32 - ((i : Int) + id)) (b := hi.cap) (by omega)
  apply Int.dvd_of_emod_eq_zero
  omega

theorem SumFits.index_eq {i : Nat} (h : SumFits hi.cap id i) (hid : 0 ≤ id) :
    hashidIndex hi id i = (i + id) % hi.cap := by
  rcases h with hle | ⟨heq, hdvd⟩
  · exact hashidIndex_of_le hid hle
  · have hhalf : (2 : Int) ^ 32 - 2 ^ 31 = 2 ^ 31 := by decide
    rw [hashidIndex_of_ge (by omega) (by omega), heq, hhalf, Int.emod_eq_zero_of_dvd hdvd]
    rfl

theorem SumFits.in_table {i : Nat} (h : SumFits hi.cap id i) (hid : 0 ≤ id) (hcap : 0 < hi.cap) :
    0 ≤ hashidIndex hi id i ∧ hashidIndex hi id i < hi.cap := by
  rw [h.index_eq hid]
  constructor
  · apply Int.emod_nonneg
    omega
  · apply Int.emod_lt_of_pos
    omega

/-- As long as no index is negative the sums fit: two sums in a row behind the largest int would
make `cap` divide two numbers in a row. -/
theorem sumFits_of_nonneg {n : Nat} (hmax : hi.cap ≤ 2 ^ 31 - 1) (hid : id ≤ 2 ^ 31 - 1)
    (hn : n < hi.cap) (h : ∀ i : Nat, i ≤ n → 0 ≤ hashidIndex hi id i) :
    SumFits hi.cap id n := by
  by_cases hle : n + id ≤ 2 ^ 31 - 1
  · exact .inl hle
  · right
    have hcap : 0 < hi.cap := Nat.zero_lt_of_lt hn
    obtain ⟨k, hk⟩ : ∃ k : Nat, k + id = 2 ^ 31 := ⟨(2 ^ 31 - id).toNat, by omega⟩
    have hdvd : (hi.cap : Int) ∣ 2 ^ 31 := by
      have hwrap := dvd_of_hashidIndex_nonneg hcap (by omega) (by omega) (h k (by omega))
      rw [hk] at hwrap
      exact hwrap
    refine ⟨?_, hdvd⟩
    by_contra hmore
    have hnext := dvd_of_hashidIndex_nonneg hcap (by omega) (by omega) (h (k + 1) (by omega))
    have hone : (hi.cap : Int) ∣ 1 := by
      have hdiff := Int.dvd_sub hdvd hnext
      have hval : (2 : Int) ^ 31 - (2 ^ 32 - (((k + 1 : Nat) : Int) + id)) = 1 := by omega
      rw [hval] at hdiff
      exact hdiff
    have hcapOne := Int.le_of_dvd (by decide) hone
    omega

/-! ## The whole round -/

theorem probeCovers_iff (hmax : hi.cap ≤ 2 ^ 31 - 1) (hcap : 0 < hi.cap) (hid : 0 ≤ id)
    (hid' : id ≤ 2 ^ 31 - 1) : ProbeCovers hi id ↔ SumFits hi.cap id (hi.cap - 1) := by
  constructor
  · intro h
    apply sumFits_of_nonneg hmax hid' (by omega)
    intro i hi
    exact (h.in_table i (by omega)).1
  · intro h
    have hfits : ∀ i : Nat, i < hi.cap → SumFits hi.cap id i := by
      intro i hlt
      exact h.mono (by omega)
    constructor
    · intro i hlt
      exact (hfits i hlt).in_table hid hcap
    · intro c hc
      obtain ⟨i, hlt, hslot⟩ := exists_probe hc id
      refine ⟨i, hlt, ?_⟩
      rw [(hfits i hlt).index_eq hid]
      exact hslot

/-! ## The loop -/

theorem probeFinds_iff (hmax : hi.cap ≤ 2 ^ 31 - 1) (hid : 0 ≤ id) (hid' : id ≤ 2 ^ 31 - 1) :
    ProbeFinds hi id ↔ ∃ d, FirstFree hi id d ∧ SumFits hi.cap id d := by
  constructor
  · intro hfinds
    obtain ⟨d, c, h⟩ := hfinds
    have hfits : SumFits hi.cap id d :=
      sumFits_of_nonneg hmax hid' h.round fun i hi => (h.in_table i hi).1
    refine ⟨d, ⟨h.round, ?_, ?_⟩, hfits⟩
    · intro i hlt
      rw [← (hfits.mono (Nat.le_of_lt hlt)).index_eq hid]
      exact h.occupied i hlt
    · rw [← hfits.index_eq hid, h.index]
      exact h.free
  · intro hfirst
    obtain ⟨d, h, hfits⟩ := hfirst
    have hcap : 0 < hi.cap := Nat.zero_lt_of_lt h.round
    have hindex : ∀ k : Nat, k ≤ d → hashidIndex hi id k = (k + id) % hi.cap := by
      intro k hle
      exact (hfits.mono hle).index_eq hid
    refine ⟨d, _, h.probe_eq hindex (Nat.zero_le d) (Nat.zero_add _), h.round, ?_, ?_, ?_, h.free⟩
    · intro i hle
      exact (hfits.mono hle).in_table hid hcap
    · intro i hlt
      rw [hindex i (Nat.le_of_lt hlt)]
      exact h.occupied i hlt
    · rw [hindex d (Nat.le_refl d), Int.toNat_of_nonneg]
      apply Int.emod_nonneg
      omega

/-- With a free slot in the table, the probe covers it exactly if the last sum of the round fits,
and the loop finds a free slot exactly if the sum fits at which it meets the first one. -/
theorem probe_iff (hi : Hashid) (hmax : hi.cap ≤ 2 ^ 31 - 1) (hid : 0 ≤ id)
    (hid' : id ≤ 2 ^ 31 - 1) (hfree : ∃ c, c < hi.cap ∧ (hi.id c).id = -1) :
    (ProbeCovers hi id ∧ ProbeFinds hi id ↔ SumFits hi.cap id (hi.cap - 1)) ∧
      (ProbeFinds hi id ↔ ∃ d, FirstFree hi id d ∧ SumFits hi.cap id d) := by
  obtain ⟨c, hc, hslot⟩ := hfree
  have hcovers := probeCovers_iff hmax (Nat.zero_lt_of_lt hc) hid hid'
  have hfinds := probeFinds_iff hmax hid hid'
  refine ⟨?_, hfinds⟩
  constructor
  · intro h
    exact hcovers.mp h.1
  · intro hfits
    obtain ⟨d, hd⟩ := exists_firstFree hc hslot id
    have hround := hd.round
    exact ⟨hcovers.mpr hfits, hfinds.mpr ⟨d, hd, hfits.mono (by omega)⟩⟩

/-- The largest id, in a table of two slots. -/
theorem probe_covers_two :
    ProbeCovers (hashidInit ⟨2, by decide⟩) (2 ^ 31 - 1) ∧ ProbeFinds (hashidInit ⟨2, by decide⟩) (2 ^ 31 - 1) :=
  (probe_iff (hashidInit ⟨2, by decide⟩) (by decide) (by decide) (by decide) ⟨0, by decide, rfl⟩).1.mpr
    (.inr (by decide))

/-- With client 4 in slot 1 of three, the largest id is looked for in slot 1 and then in slot
`-2`, and the accept reads in front of the table. -/
theorem probe_leaves_table :
    ∃ tr g, Exec (dispatchSocketMessage gatewayMd5) FreshAccept (gateInit ⟨3, by decide⟩ 7) tr g ∧
      tr.map Record.input = [⟨.accept 7 4, 0⟩] ∧
      (g.hash.cap = 3 ∧ (g.hash.id 0).id = -1 ∧ hashidIndex g.hash (2 ^ 31 - 1) 1 = -2 ∧
        hashidProbe g.hash (2 ^ 31 - 1) 3 0 = none) ∧
      (dispatchSocketMessage gatewayMd5 g ⟨.accept 7 (2 ^ 31 - 1), 0⟩).isNone ∧
      ¬ProbeCovers g.hash (2 ^ 31 - 1) ∧ ¬ProbeFinds g.hash (2 ^ 31 - 1) := by
  have hrun : ((execute (dispatchSocketMessage gatewayMd5) FreshAccept (gateInit ⟨3, by decide⟩ 7)
      [⟨.accept 7 4, 0⟩]).map fun run =>
      (run.1.map Record.input, decide (run.2.hash.cap = 3 ∧ (run.2.hash.id 0).id = -1 ∧
        hashidIndex run.2.hash (2 ^ 31 - 1) 1 = -2 ∧
        hashidProbe run.2.hash (2 ^ 31 - 1) 3 0 = none),
        (dispatchSocketMessage gatewayMd5 run.2 ⟨.accept 7 (2 ^ 31 - 1), 0⟩).isNone)) =
      some ([⟨.accept 7 4, 0⟩], true, true) := by decide +kernel
  obtain ⟨tr, g, h, hdata⟩ := exists_exec _ hrun
  obtain ⟨hinputs, hdata⟩ := Prod.mk.inj hdata
  obtain ⟨htable, haccept⟩ := Prod.mk.inj hdata
  have hfacts : g.hash.cap = 3 ∧ (g.hash.id 0).id = -1 ∧
      hashidIndex g.hash (2 ^ 31 - 1) 1 = -2 ∧ hashidProbe g.hash (2 ^ 31 - 1) 3 0 = none :=
    of_decide_eq_true htable
  refine ⟨tr, g, h, hinputs, hfacts, haccept, ?_, ?_⟩
  · intro hcovers
    have hnonneg := (hcovers.in_table 1 (by rw [hfacts.1]; decide)).1
    rw [hfacts.2.2.1] at hnonneg
    exact absurd hnonneg (by decide)
  · intro hfinds
    obtain ⟨d, c, hstops⟩ := hfinds
    have hresult := hstops.result
    rw [hfacts.1, hfacts.2.2.2] at hresult
    cases hresult

end NetgameFormal
