import NetgameFormal.DatabufferPool
import NetgameFormal.Framing

/-!
# The databuffer operations as operations on byte queues

Each operation on the databuffer at index `i` runs to its end and changes the
byte queue of `i` only. `databuffer_push` followed by `databuffer_readheader` is
the first half of the receiver of `Framing`.
-/

set_option autoImplicit false

namespace NetgameFormal

universe u
variable {ι : Type u}

/-- A frame of `Framing` is rebuilt to exactly its own bytes. -/
theorem rebuiltFrame_payload (f : Framing.Frame beNat) : rebuiltFrame f.payload = f.bytes := by
  rw [rebuiltFrame_eq, ← f.declared, hiByte_beNat, loByte_beNat]
  rfl

namespace Queues
variable {mp : Messagepool} {bufs : ι → Databuffer} {bytes : ι → List Byte}

theorem empty (ι : Type u) (hpool : mp.pool = 0) (hfree : mp.freelist = none) :
    Queues mp (fun _ : ι => Databuffer.zero) (fun _ => []) :=
  ⟨[], fun _ => [], Owns.empty ι hpool hfree,
    fun _ => ⟨⟨by simp, by simp [Databuffer.zero], rfl⟩, rfl⟩⟩

theorem init (ι : Type u) :
    Queues Messagepool.zero (fun _ : ι => Databuffer.zero) (fun _ => []) :=
  empty ι rfl rfl

theorem size_eq (h : Queues mp bufs bytes) (i : ι) : (bufs i).size = (bytes i).length := by
  obtain ⟨_, _, _, hcounts⟩ := h
  exact (hcounts i).2

theorem heldBytes_eq (h : Queues mp bufs bytes) (i : ι) : heldBytes mp (bufs i) = bytes i := by
  obtain ⟨_, chunks, howns, hcounts⟩ := h
  rw [(hcounts i).1.bytes_eq, heldBytes, (howns.chain i).walk_eq (howns.length_le i)]
  rfl

/-- A pending length is reported, and settled by the receiver, once its payload is here. -/
theorem headerReady_spec (h : Queues mp bufs bytes) (i : ι) (m : Nat) :
    ((headerReady (bufs i) mp).2.2 ≤ 0 ∧
        Framing.settle m (bufs i).header (bytes i) = (⟨(bufs i).header, bytes i⟩, none)) ∨
      (0 < (bufs i).header ∧ (headerReady (bufs i) mp).2.2 = (bufs i).header ∧
        (bufs i).header ≤ (bytes i).length) := by
  have hlen := h.size_eq i
  by_cases hlate : (bytes i).length < (bufs i).header
  · exact Or.inl ⟨by simp [headerReady, hlen, hlate], Framing.settle_late hlate⟩
  by_cases hzero : (bufs i).header = 0
  · refine Or.inl ⟨by simp [headerReady, hzero], ?_⟩
    rw [hzero]
    exact Framing.settle_zero m (bytes i)
  · exact Or.inr ⟨by omega, by simp [headerReady, hlen, hlate], by omega⟩

variable [DecidableEq ι]

theorem set_header (h : Queues mp bufs bytes) (i : ι) (n : Nat) :
    Queues mp (Function.update bufs i { bufs i with header := n }) bytes := by
  obtain ⟨free, chunks, howns, hcounts⟩ := h
  refine ⟨free, chunks, howns.set_counters i _ rfl rfl, fun j => ?_⟩
  by_cases hj : j = i
  · subst hj
    simpa using hcounts j
  · simpa [hj] using hcounts j

theorem push (h : Queues mp bufs bytes) (i : ι) (data : List Byte) :
    ∃ db' mp', databufferPush (bufs i) mp data = some (db', mp') ∧
      Queues mp' (Function.update bufs i db') (Function.update bytes i (bytes i ++ data)) ∧
      db'.header = (bufs i).header := by
  obtain ⟨free, chunks, howns, hcounts⟩ := h
  obtain ⟨db', mp', free', m, hpush, howns', hbuf, hsize, hsame, hheader, hoffset, hdbsize⟩ :=
    howns.push_spec i data
  refine ⟨db', mp', hpush, ⟨free', _, howns', fun j => ?_⟩, hheader⟩
  by_cases hj : j = i
  · subst hj
    obtain ⟨⟨hsizes, hoff, hbytes⟩, hlen⟩ := hcounts j
    simp only [Function.update_self]
    have hold : chunkBytes mp' (chunks j) = chunkBytes mp (chunks j) := chunkBytes_congr (hsame j)
    have hall : chunkBytes mp' (chunks j ++ [m]) = chunkBytes mp (chunks j) ++ data := by
      rw [← hold]
      simp [chunkBytes, hbuf]
    refine ⟨⟨?_, ?_, ?_⟩, by rw [hdbsize, hlen, List.length_append]⟩
    · intro a ha
      rcases List.mem_append.mp ha with ha | ha
      · rw [(hsame j a ha).1, (hsame j a ha).2]
        exact hsizes a ha
      · rw [List.mem_singleton.mp ha, hbuf, hsize]
    · rw [hoffset]
      cases hl : chunks j with
      | nil =>
        rw [hl] at hoff
        simp at hoff
        omega
      | cons a l =>
        rw [hl] at hoff
        simpa [(hsame j a (by simp [hl])).1] using hoff
    · have hwithin : (bufs j).offset ≤ (chunkBytes mp (chunks j)).length := by
        cases hl : chunks j with
        | nil =>
          rw [hl] at hoff
          simpa using hoff
        | cons a l =>
          rw [hl] at hoff
          simp at hoff ⊢
          omega
      rw [hall, hoffset, List.drop_append_of_le_length hwithin, hbytes]
  · simp only [Function.update_of_ne hj]
    exact ⟨(hcounts j).1.congr (hsame j), (hcounts j).2⟩

theorem read (h : Queues mp bufs bytes) {i : ι} {sz : Nat} (hsz : 0 < sz)
    (hle : sz ≤ (bytes i).length) :
    ∃ db' mp', databufferRead (bufs i) mp sz = some (db', mp', (bytes i).take sz) ∧
      Queues mp' (Function.update bufs i db') (Function.update bytes i ((bytes i).drop sz)) ∧
      db'.header = (bufs i).header := by
  obtain ⟨free, chunks, howns, hcounts⟩ := h
  obtain ⟨hcount, hlen⟩ := hcounts i
  have howns₀ : Owns mp (Function.update bufs i { bufs i with size := (bufs i).size - sz }) free
      (Function.update chunks i (chunks i)) := by
    rw [Function.update_eq_self]
    exact howns.set_counters i _ rfl rfl
  obtain ⟨db', mp', free', l', hloop, howns', hcount', hheader, hsize, hnodes⟩ :=
    howns₀.readLoop_spec [] hcount (howns.length_le i) hsz hle
  refine ⟨db', mp', ?_, ⟨free', _, howns', fun j => ?_⟩, hheader⟩
  · rw [databufferRead, if_pos (by omega), hloop, List.nil_append]
  · by_cases hj : j = i
    · subst hj
      simp only [Function.update_self]
      refine ⟨hcount', ?_⟩
      rw [hsize, List.length_drop, hlen]
    · simp only [Function.update_of_ne hj]
      refine ⟨(hcounts j).1.congr (.of_node_eq fun b hb => hnodes b fun hb' => ?_), (hcounts j).2⟩
      exact hj (howns.disjoint j i b hb hb')

theorem clear (h : Queues mp bufs bytes) (i : ι) :
    ∃ mp', databufferClear (bufs i) mp = some (.zero, mp') ∧
      Queues mp' (Function.update bufs i .zero) (Function.update bytes i []) := by
  obtain ⟨free, chunks, howns, hcounts⟩ := h
  have howns₀ : Owns mp (Function.update bufs i (bufs i)) free
      (Function.update chunks i (chunks i)) := by
    rw [Function.update_eq_self, Function.update_eq_self]
    exact howns
  obtain ⟨db', mp', free', hloop, howns', hnodes⟩ := howns₀.clearLoop_spec (howns.length_le i)
  refine ⟨mp', by simp only [databufferClear, hloop], free', _, howns', fun j => ?_⟩
  by_cases hj : j = i
  · subst hj
    simp only [Function.update_self]
    exact ⟨⟨by simp, by simp [Databuffer.zero], rfl⟩, rfl⟩
  · simp only [Function.update_of_ne hj]
    refine ⟨(hcounts j).1.congr (.of_node_eq fun b hb => hnodes b fun hb' => ?_), (hcounts j).2⟩
    exact hj (howns.disjoint j i b hb hb')

/-- `databuffer_readheader` reads a length when none is pending, and reports it
once its payload has arrived. The outcome is the receiver's, for every split of
the held bytes into those held before and a chunk. -/
theorem readheader (h : Queues mp bufs bytes) (i : ι) (hheader : (bufs i).header < 65536) :
    ∃ db' mp' ret held, databufferReadheader (bufs i) mp = some (db', mp', ret) ∧
      Queues mp' (Function.update bufs i db') (Function.update bytes i held) ∧
      db'.header < 65536 ∧
      ∀ m pending chunk, pending ++ chunk = bytes i →
        (ret ≤ 0 ∧ Framing.feed beNat m ⟨(bufs i).header, pending⟩ chunk =
            (⟨db'.header, held⟩, none)) ∨
          (0 < db'.header ∧ ret = db'.header ∧ db'.header ≤ held.length ∧
            Framing.feed beNat m ⟨(bufs i).header, pending⟩ chunk =
              Framing.settle m db'.header held) := by
  have hsize := h.size_eq i
  unfold databufferReadheader
  by_cases hz : (bufs i).header = 0
  · rw [if_pos hz]
    by_cases hfew : (bytes i).length < 2
    · rw [if_pos (by omega)]
      refine ⟨bufs i, mp, -1, bytes i, rfl, by simpa using h, hheader,
        fun m pending chunk hsplit => Or.inl ⟨by omega, ?_⟩⟩
      rw [Framing.feed_short hz (by rw [hsplit]; exact hfew), hz, hsplit]
    · rw [if_neg (by omega)]
      obtain ⟨db', mp', hread, hq, hkept⟩ := h.read (i := i) (show 0 < 2 by omega) (by omega)
      obtain ⟨a, b, held, hheld⟩ := exists_cons_two (Nat.le_of_not_lt hfew)
      have hplen : plenHeader (((bytes i).take 2).getD 0 0#8) (((bytes i).take 2).getD 1 0#8) =
          beNat a b := by
        rw [hheld]
        exact plenHeader_eq a b
      have hq' := hq.set_header i (beNat a b)
      simp only [Function.update_self, Function.update_idem, hheld, List.drop_succ_cons,
        List.drop_zero] at hq'
      rw [hread]
      simp only [hplen]
      refine ⟨_, _, _, held, rfl, hq', beNat_lt a b, fun m pending chunk hsplit => ?_⟩
      rw [Framing.feed_length hz (hsplit.trans hheld)]
      have hsettled := hq'.headerReady_spec i m
      simp only [Function.update_self] at hsettled
      rcases hsettled with hlate | ⟨hpos, hret, hle⟩
      · exact Or.inl hlate
      · exact Or.inr ⟨hpos, hret, hle, rfl⟩
  · rw [if_neg hz]
    have hq : Queues mp (Function.update bufs i (bufs i)) (Function.update bytes i (bytes i)) := by
      simpa using h
    refine ⟨bufs i, mp, _, bytes i, rfl, hq, hheader, fun m pending chunk hsplit => ?_⟩
    rw [Framing.feed_payload hz, hsplit]
    rcases h.headerReady_spec i m with hlate | ⟨hpos, hret, hle⟩
    · exact Or.inl hlate
    · exact Or.inr ⟨hpos, hret, hle, rfl⟩

end Queues

end NetgameFormal
