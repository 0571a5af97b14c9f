import NetgameFormal.Hashid
import Mathlib.Data.Nat.Find

/-!
# The id table under insertion and removal

`hashidRemove` and `hashidInsert` keep the invariant, and change the id of one
slot only. The results are stated on the ids, not on the links.
-/

set_option autoImplicit false

namespace NetgameFormal

variable {hi hi' : Hashid} {id : Int} {a : Nat}

theorem Hashid.SetAt.bucket_eq {x : Int} (h : hi.SetAt hi' a x) (id : Int) :
    hi'.bucket id = hi.bucket id := by
  rw [Hashid.bucket, Hashid.bucket, h.hashmod]

theorem Hashid.SetAt.holds_iff {x : Int} (h : hi.SetAt hi' a x) {b : Nat} (hb : b ≠ a) :
    hi'.Holds id b ↔ hi.Holds id b := by
  rw [Hashid.Holds, Hashid.Holds, h.cap, h.elsewhere b hb]

theorem Hashid.Holds.mem_occupied (h : hi.Holds id a) : a ∈ hi.occupied := by
  obtain ⟨hcap, hid, hne⟩ := h
  simp [Hashid.occupied, hcap, hid, hne]

/-! ## The probe -/

theorem hashidIndex_lt {n i : Nat} (hn : n + 1 ≤ hi.cap) (hi0 : ¬ hashidIndex hi id i < 0) :
    (hashidIndex hi id i).toNat < hi.cap := by
  have hlt := Int.tmod_lt_of_pos (Int.bmod (i + id) (2 ^ 32)) (b := (hi.cap : Int)) (by omega)
  unfold hashidIndex at hi0 ⊢
  omega

theorem hashidProbe_some {c n i : Nat} (hn : n ≤ hi.cap) (h : hashidProbe hi id n i = some c) :
    c < hi.cap ∧ (hi.id c).id = -1 := by
  induction n generalizing i with
  | zero => simp [hashidProbe] at h
  | succ n ih =>
    rw [hashidProbe] at h
    split at h
    · simp at h
    · next hneg =>
      split at h
      · next hfree =>
        obtain rfl := Option.some.inj h
        exact ⟨hashidIndex_lt hn hneg, hfree⟩
      · exact ih (by omega) h

/-- Without overflow the probe index is the mathematical remainder. -/
theorem hashidIndex_of_le {i : Nat} (hid : 0 ≤ id) (hmax : i + id ≤ 2 ^ 31 - 1) :
    hashidIndex hi id i = (i + id) % hi.cap := by
  have hbmod : Int.bmod (i + id) (2 ^ 32) = i + id := by
    apply Int.bmod_eq_of_le <;> omega
  rw [hashidIndex, hbmod, Int.tmod_eq_emod_of_nonneg (by omega)]

theorem exists_probe {f : Nat} (hf : f < hi.cap) (id : Int) :
    ∃ j : Nat, j < hi.cap ∧ ((j : Int) + id) % hi.cap = f := by
  have hcap : (0 : Int) < hi.cap := by omega
  have hnonneg := Int.emod_nonneg ((f : Int) - id) (b := hi.cap) (by omega)
  have hlt := Int.emod_lt_of_pos ((f : Int) - id) hcap
  refine ⟨(((f : Int) - id) % hi.cap).toNat, by omega, ?_⟩
  rw [Int.toNat_of_nonneg hnonneg, Int.emod_add_emod, Int.sub_add_cancel,
    Int.emod_eq_of_lt (by omega) (by omega)]

/-- Round the table from slot `id % cap` on, the first `d` slots are taken, and the next is free. -/
structure FirstFree (hi : Hashid) (id : Int) (d : Nat) : Prop where
  round : d < hi.cap
  occupied : ∀ i : Nat, i < d → (hi.id ((i + id) % hi.cap).toNat).id ≠ -1
  free : (hi.id ((d + id) % hi.cap).toNat).id = -1

theorem exists_firstFree {c : Nat} (hc : c < hi.cap) (hfree : (hi.id c).id = -1) (id : Int) :
    ∃ d, FirstFree hi id d := by
  have hexists : ∃ d : Nat, d < hi.cap ∧ (hi.id ((d + id) % hi.cap).toNat).id = -1 := by
    obtain ⟨d, hd, hslot⟩ := exists_probe hc id
    refine ⟨d, hd, ?_⟩
    rw [hslot]
    exact hfree
  obtain ⟨hround, hfirst⟩ := Nat.find_spec hexists
  refine ⟨Nat.find hexists, hround, ?_, hfirst⟩
  intro i hlt htaken
  exact Nat.find_min hexists hlt ⟨Nat.lt_trans hlt hround, htaken⟩

/-- If no index up to the first free slot has wrapped, the loop stops there. -/
theorem FirstFree.probe_eq {d n i : Nat} (h : FirstFree hi id d)
    (hindex : ∀ k : Nat, k ≤ d → hashidIndex hi id k = (k + id) % hi.cap) (hle : i ≤ d)
    (hin : i + n = hi.cap) : hashidProbe hi id n i = some ((d + id) % hi.cap).toNat := by
  have hround := h.round
  induction n generalizing i with
  | zero => omega
  | succ n ih =>
    have hnonneg : 0 ≤ ((i : Int) + id) % hi.cap := Int.emod_nonneg _ (by omega)
    rw [hashidProbe, hindex i hle, if_neg (by omega)]
    by_cases hd : i = d
    · rw [hd, if_pos h.free]
    · rw [if_neg (h.occupied i (by omega))]
      apply ih <;> omega

namespace HashidOk

theorem mem_chain_bucket (hok : HashidOk hi) (ha : hi.Holds id a) {h : Nat} {l : List Nat}
    (hl : Chain hi.next (hi.hash h) l) : a ∈ l ↔ h = hi.bucket id := by
  obtain ⟨l', hl', hmem⟩ := hok.chains h
  obtain rfl := hl.unique hl'
  obtain ⟨hcap, hid, hne⟩ := ha
  rw [hmem a, hid]
  constructor
  · exact fun h => h.2.2.symm
  · exact fun h => ⟨hcap, hne, h.symm⟩

/-- Taking the occupied slot `a` out of its chain and freeing it. -/
theorem removed (hok : HashidOk hi) (ha : hi.Holds id a) (hset : hi.SetAt hi' a (-1))
    (hcount : hi'.count = hi.count - 1) (hnext : (hi'.id a).next = none)
    (hfree : ∀ b, b ≠ a → (hi.id b).id = -1 → (hi'.id b).next = (hi.id b).next)
    (hchain : ∀ h l, Chain hi.next (hi.hash h) l →
      Chain hi'.next (hi'.hash h) (l.filter (· ≠ a))) : HashidOk hi' where
  chains := by
    intro h
    obtain ⟨l, hl, hmem⟩ := hok.chains h
    refine ⟨_, hchain h l hl, fun b => ?_⟩
    rw [List.mem_filter, hmem b, hset.cap, decide_eq_true_eq]
    by_cases hb : b = a
    · simp [hb, hset.here]
    · simp [hb, hset.elsewhere b hb, hset.bucket_eq]
  free := by
    intro b hb hid
    by_cases hba : b = a
    · rw [hba, hnext]
    · rw [hset.cap] at hb
      rw [hset.elsewhere b hba] at hid
      rw [hfree b hba hid, hok.free b hb hid]
  distinct := by
    intro x b c hb hc
    have hne : ∀ {d}, hi'.Holds x d → d ≠ a := by
      rintro d ⟨-, hd, hx⟩ rfl
      exact hx (hd.symm.trans hset.here)
    exact hok.distinct ((hset.holds_iff (hne hb)).mp hb) ((hset.holds_iff (hne hc)).mp hc)
  count := by
    have herase : hi'.occupied = hi.occupied.erase a := by
      ext b
      by_cases hb : b = a
      · simp [Hashid.occupied, hb, hset.here]
      · simp [Hashid.occupied, hset.cap, hb, hset.elsewhere b hb]
    rw [hcount, hok.count, herase, Finset.card_erase_of_mem ha.mem_occupied]
    have hpos := Finset.card_pos.mpr ⟨a, ha.mem_occupied⟩
    omega

theorem removeLoop_spec (hi : Hashid) (id : Int) {c : Nat} {l : List Nat} {n : Nat}
    (hl : Chain hi.next (some c) (c :: l)) (hn : l.length < n) :
    (∃ l₁ pred temp l₂, c :: l = l₁ ++ pred :: temp :: l₂ ∧ (hi.id temp).id = id ∧
        hashidRemoveLoop hi id n c = some (some (pred, temp))) ∨
      ((∀ b ∈ l, (hi.id b).id ≠ id) ∧ hashidRemoveLoop hi id n c = some none) := by
  induction l generalizing c n with
  | nil =>
    have hnone : (hi.id c).next = none := hl.2
    cases n with
    | zero => simp at hn
    | succ n => exact Or.inr ⟨by simp, by simp [hashidRemoveLoop, hnone]⟩
  | cons t l ih =>
    have hnext : (hi.id c).next = some t := hl.2.1
    cases n with
    | zero => simp at hn
    | succ n =>
      simp only [hashidRemoveLoop, hnext]
      by_cases ht : (hi.id t).id = id
      · exact Or.inl ⟨[], c, t, l, rfl, ht, by simp [ht]⟩
      · rw [if_neg ht]
        rcases ih ⟨rfl, hl.2.2⟩ (by simpa using hn) with
          ⟨l₁, pred, temp, l₂, heq, htemp, hloop⟩ | ⟨hnone, hloop⟩
        · exact Or.inl ⟨c :: l₁, pred, temp, l₂, by simp [heq], htemp, hloop⟩
        · exact Or.inr ⟨List.forall_mem_cons.mpr ⟨ht, hnone⟩, hloop⟩

theorem remove_of_absent (hok : HashidOk hi) (h : ∀ a, ¬ hi.Holds id a) :
    hashidRemove hi id = some (hi, -1) := by
  obtain ⟨l, hl, hmem⟩ := hok.chains (hi.bucket id)
  have hnone : ∀ b ∈ l, (hi.id b).id ≠ id := by
    intro b hb hbid
    obtain ⟨hcap, hocc, -⟩ := (hmem b).mp hb
    exact h b ⟨hcap, hbid, hbid ▸ hocc⟩
  have hlen := chain_length hl hmem
  cases hhash : hi.hash (hi.bucket id) with
  | none => simp only [hashidRemove, hhash]
  | some c =>
    obtain ⟨l', rfl, htail⟩ := (hhash ▸ hl).of_some
    simp only [hashidRemove, hhash, hnone c List.mem_cons_self, if_false]
    rcases removeLoop_spec hi id (c := c) (l := l') (n := hi.cap) ⟨rfl, htail⟩ hlen with
      ⟨l₁, pred, temp, l₂, heq, htemp, -⟩ | ⟨-, hloop⟩
    · exact absurd htemp (hnone temp (by simp [heq]))
    · rw [hloop]

theorem filter_ne_of_notMem {l : List Nat} (h : a ∉ l) : l.filter (· ≠ a) = l :=
  List.filter_eq_self.mpr fun _ hb => decide_eq_true fun hba => h (hba ▸ hb)

theorem removed_head (hok : HashidOk hi) (ha : hi.Holds id a)
    (hhead : hi.hash (hi.bucket id) = some a) :
    HashidOk ((hi.setHead (hi.bucket id) (hi.id a).next).clear a) ∧
      hi.SetAt ((hi.setHead (hi.bucket id) (hi.id a).next).clear a) a (-1) := by
  have hset : hi.SetAt ((hi.setHead (hi.bucket id) (hi.id a).next).clear a) a (-1) :=
    ⟨rfl, rfl, by simp, fun b hb => by simp [Hashid.clear_of_ne _ hb]⟩
  refine ⟨hok.removed ha hset rfl (by simp) ?_ ?_, hset⟩
  · intro b hb _
    simp [Hashid.clear_of_ne _ hb]
  · intro h l hl
    by_cases hh : h = hi.bucket id
    · subst hh
      obtain ⟨l', rfl, htail⟩ := Chain.of_some (hhead ▸ hl)
      have hal : a ∉ l' := hl.mem_tail_not_head
      rw [List.filter_cons_of_neg (by simp), filter_ne_of_notMem hal, Hashid.clear_hash]
      simp only [Hashid.setHead, Function.update_self]
      refine Chain.congr (fun b hb => ?_) htail
      have hba : b ≠ a := fun h => hal (h ▸ hb)
      simp [Hashid.next, Hashid.clear_of_ne _ hba]
    · have hal : a ∉ l := fun h' => hh ((hok.mem_chain_bucket ha hl).mp h')
      rw [filter_ne_of_notMem hal, Hashid.clear_hash]
      simp only [Hashid.setHead, Function.update_of_ne hh]
      refine Chain.congr (fun b hb => ?_) hl
      have hba : b ≠ a := fun h => hal (h ▸ hb)
      simp [Hashid.next, Hashid.clear_of_ne _ hba]

theorem removed_behind (hok : HashidOk hi) (ha : hi.Holds id a) {pred : Nat} {l₁ l₂ : List Nat}
    (hl : Chain hi.next (hi.hash (hi.bucket id)) (l₁ ++ pred :: a :: l₂)) :
    HashidOk ((hi.setNext pred (hi.id a).next).clear a) ∧
      hi.SetAt ((hi.setNext pred (hi.id a).next).clear a) a (-1) := by
  have hnodup := hl.nodup
  simp only [List.nodup_append, List.nodup_cons, List.mem_cons, not_or] at hnodup
  obtain ⟨-, ⟨⟨hpa, hp₂⟩, ha₂, -⟩, hdisj⟩ := hnodup
  have hp₁ : pred ∉ l₁ := fun h => hdisj pred h pred (Or.inl rfl) rfl
  have ha₁ : a ∉ l₁ := fun h => hdisj a h a (Or.inr (Or.inl rfl)) rfl
  obtain ⟨l, hl', hmem⟩ := hok.chains (hi.bucket id)
  obtain rfl := hl.unique hl'
  obtain ⟨hpcap, hpocc, hpbucket⟩ := (hmem pred).mp (by simp)
  have hpred : hi.Holds (hi.id pred).id pred := ⟨hpcap, rfl, hpocc⟩
  have hset : hi.SetAt ((hi.setNext pred (hi.id a).next).clear a) a (-1) :=
    ⟨rfl, rfl, by simp, fun b hb => by simp [Hashid.clear_of_ne _ hb]⟩
  refine ⟨hok.removed ha hset rfl (by simp) ?_ ?_, hset⟩
  · intro b hb hfree
    have hbp : b ≠ pred := fun h => hpocc (h ▸ hfree)
    rw [Hashid.clear_of_ne _ hb, Hashid.setNext_of_ne _ _ hbp]
  · intro h l hl''
    rw [Hashid.clear_hash, Hashid.setNext_hash]
    by_cases hh : h = hi.bucket id
    · subst hh
      obtain rfl := hl''.unique hl
      rw [List.filter_append, List.filter_cons_of_pos (by simpa using hpa),
        List.filter_cons_of_neg (by simp), filter_ne_of_notMem ha₁, filter_ne_of_notMem ha₂]
      refine Chain.unlink hl ?_ fun b hb => ?_
      · simp [Hashid.next, Hashid.clear_of_ne _ hpa]
      · have hba : b ≠ a := by
          intro heq
          subst heq
          exact (List.mem_append.mp hb).elim ha₁ ha₂
        have hbp : b ≠ pred := by
          intro heq
          subst heq
          exact (List.mem_append.mp hb).elim hp₁ hp₂
        rw [Hashid.next, Hashid.next, Hashid.clear_of_ne _ hba, Hashid.setNext_of_ne _ _ hbp]
    · have hal : a ∉ l := fun h' => hh ((hok.mem_chain_bucket ha hl'').mp h')
      have hpl : pred ∉ l := fun h' =>
        hh (((hok.mem_chain_bucket hpred hl'').mp h').trans hpbucket)
      rw [filter_ne_of_notMem hal]
      refine Chain.congr (fun b hb => ?_) hl''
      have hba : b ≠ a := fun h => hal (h ▸ hb)
      have hbp : b ≠ pred := fun h => hpl (h ▸ hb)
      rw [Hashid.next, Hashid.next, Hashid.clear_of_ne _ hba, Hashid.setNext_of_ne _ _ hbp]

theorem remove_of_holds (hok : HashidOk hi) (ha : hi.Holds id a) :
    ∃ hi', hashidRemove hi id = some (hi', (a : Int)) ∧ HashidOk hi' ∧ hi.SetAt hi' a (-1) := by
  obtain ⟨l, hl, hmem⟩ := hok.chains (hi.bucket id)
  have hal : a ∈ l := (hok.mem_chain_bucket ha hl).mpr rfl
  have hlen := chain_length hl hmem
  have honly : ∀ b ∈ l, (hi.id b).id = id → b = a := fun b hb hbid =>
    hok.distinct ⟨((hmem b).mp hb).1, hbid, ha.2.2⟩ ha
  cases hhash : hi.hash (hi.bucket id) with
  | none =>
    rw [hhash] at hl
    rw [hl.of_none] at hal
    simp at hal
  | some c =>
    obtain ⟨l', rfl, htail⟩ := Chain.of_some (hhash ▸ hl)
    simp only [hashidRemove, hhash]
    by_cases hc : (hi.id c).id = id
    · obtain rfl := honly c List.mem_cons_self hc
      rw [if_pos hc]
      exact ⟨_, rfl, hok.removed_head ha hhash⟩
    · rw [if_neg hc]
      rcases removeLoop_spec hi id (c := c) (l := l') (n := hi.cap) ⟨rfl, htail⟩ hlen with
        ⟨l₁, pred, temp, l₂, heq, htemp, hloop⟩ | ⟨hnone, -⟩
      · obtain rfl := honly temp (by simp [heq]) htemp
        rw [hloop]
        exact ⟨_, rfl, hok.removed_behind ha (heq ▸ hl)⟩
      · rcases List.mem_cons.mp hal with rfl | hal
        · exact absurd ha.2.1 hc
        · exact absurd ha.2.1 (hnone a hal)

/-! ## Insertion -/

theorem count_le (hok : HashidOk hi) : hi.count ≤ hi.cap := by
  rw [hok.count]
  have hle := Finset.card_filter_le (Finset.range hi.cap) fun a => (hi.id a).id ≠ -1
  rw [Finset.card_range] at hle
  exact_mod_cast hle

theorem exists_free (hok : HashidOk hi) (hcount : hi.count ≠ hi.cap) :
    ∃ f, f < hi.cap ∧ (hi.id f).id = -1 := by
  by_contra hnone
  have hall : hi.occupied = Finset.range hi.cap := by
    apply Finset.filter_true_of_mem
    intro f hf hid
    exact hnone ⟨f, Finset.mem_range.mp hf, hid⟩
  rw [hok.count, hall, Finset.card_range] at hcount
  exact hcount rfl

theorem distinct_of_set (hok : HashidOk hi) (habsent : ∀ a, ¬ hi.Holds id a) {c : Nat}
    (hset : hi.SetAt hi' c id) {x : Int} {a b : Nat} (ha : hi'.Holds x a) (hb : hi'.Holds x b) :
    a = b := by
  by_cases hx : x = id
  · have honly : ∀ {d}, hi'.Holds x d → d = c := by
      intro d hd
      by_contra hdc
      exact habsent d (hx ▸ (hset.holds_iff hdc).mp hd)
    rw [honly ha, honly hb]
  · have hne : ∀ {d}, hi'.Holds x d → d ≠ c := by
      rintro d ⟨-, hd, -⟩ rfl
      exact hx (hd.symm.trans hset.here)
    exact hok.distinct ((hset.holds_iff (hne ha)).mp ha) ((hset.holds_iff (hne hb)).mp hb)

theorem occupied_of_set (hid : id ≠ -1) {c : Nat} (hcap : c < hi.cap) (hset : hi.SetAt hi' c id) :
    hi'.occupied = insert c hi.occupied := by
  ext b
  by_cases hb : b = c
  · simp [Hashid.occupied, hb, hset.cap, hcap, hset.here, hid]
  · simp [Hashid.occupied, hb, hset.cap, hset.elsewhere b hb]

theorem notMem_of_free (hok : HashidOk hi) {c h : Nat} (hfree : (hi.id c).id = -1) {l : List Nat}
    (hl : Chain hi.next (hi.hash h) l) : c ∉ l := by
  intro hmem
  obtain ⟨l', hl', hmem'⟩ := hok.chains h
  obtain rfl := hl.unique hl'
  exact ((hmem' c).mp hmem).2.1 hfree

/-- Linking the free slot `c` in front of the bucket of a new id. -/
theorem linked (hok : HashidOk hi) (hid : id ≠ -1) (habsent : ∀ a, ¬ hi.Holds id a) {c : Nat}
    (hcap : c < hi.cap) (hfree : (hi.id c).id = -1) :
    HashidOk (hi.link c id) ∧ hi.SetAt (hi.link c id) c id := by
  have hself := hi.link_self id (hok.free c hcap hfree)
  have hset : hi.SetAt (hi.link c id) c id :=
    ⟨rfl, rfl, by rw [hself], fun b hb => by rw [hi.link_of_ne id hb]⟩
  have hkept : ∀ {h l}, Chain hi.next (hi.hash h) l → Chain (hi.link c id).next (hi.hash h) l := by
    intro h l hl
    refine Chain.congr (fun b hb => ?_) hl
    have hbc : b ≠ c := fun h => hok.notMem_of_free hfree hl (h ▸ hb)
    rw [Hashid.next, Hashid.next, hi.link_of_ne id hbc]
  refine ⟨⟨?_, ?_, ?_, ?_⟩, hset⟩
  · intro h
    obtain ⟨l, hl, hmem⟩ := hok.chains h
    have hmem' : ∀ b, b ≠ c → (b ∈ l ↔ b < (hi.link c id).cap ∧ ((hi.link c id).id b).id ≠ -1 ∧
        (hi.link c id).bucket ((hi.link c id).id b).id = h) := by
      intro b hb
      rw [hmem b, hset.cap, hset.elsewhere b hb, hset.bucket_eq]
    by_cases hh : h = hi.bucket id
    · subst hh
      refine ⟨c :: l, ⟨hi.link_hash_self c id, ?_⟩, fun b => ?_⟩
      · rw [Hashid.next, hself]
        exact hkept hl
      · by_cases hb : b = c
        · simp [hb, hset.cap, hcap, hset.here, hid, hset.bucket_eq]
        · rw [List.mem_cons, or_iff_right hb, hmem' b hb]
    · refine ⟨l, by rw [hi.link_hash_of_ne hh]; exact hkept hl, fun b => ?_⟩
      by_cases hb : b = c
      · simp [hb, hok.notMem_of_free hfree hl, hset.here, hset.bucket_eq, Ne.symm hh]
      · exact hmem' b hb
  · intro b hb hbid
    have hbc : b ≠ c := by
      intro heq
      subst heq
      exact hid (hset.here.symm.trans hbid)
    rw [hi.link_of_ne id hbc] at hbid ⊢
    exact hok.free b hb hbid
  · intro x a b ha hb
    exact hok.distinct_of_set habsent hset ha hb
  · rw [occupied_of_set hid hcap hset,
      Finset.card_insert_of_notMem (by simp [Hashid.occupied, hfree]), Hashid.link_count, hok.count]
    push_cast
    rfl

theorem inserted (hok : HashidOk hi) (hid : id ≠ -1) (habsent : ∀ a, ¬ hi.Holds id a) {c : Nat}
    (h : hashidInsert hi id = some (hi', c)) :
    c < hi.cap ∧ (hi.id c).id = -1 ∧ HashidOk hi' ∧ hi.SetAt hi' c id := by
  unfold hashidInsert at h
  cases hprobe : hashidProbe hi id hi.cap 0 with
  | none => simp [hprobe] at h
  | some c' =>
    obtain ⟨hcap, hfree⟩ := hashidProbe_some (Nat.le_refl _) hprobe
    simp only [hprobe, hok.free c' hcap hfree, if_true, Option.some.injEq, Prod.mk.injEq] at h
    obtain ⟨rfl, rfl⟩ := h
    exact ⟨hcap, hfree, hok.linked hid habsent hcap hfree⟩

theorem insert_isSome (hok : HashidOk hi) (hid : 0 ≤ id) (hmax : id + hi.cap ≤ 2 ^ 31 - 1)
    (hcount : hi.count ≠ hi.cap) : ∃ hi' c, hashidInsert hi id = some (hi', c) := by
  obtain ⟨f, hf, hfree⟩ := hok.exists_free hcount
  obtain ⟨d, hd⟩ := exists_firstFree hf hfree id
  have hround := hd.round
  obtain ⟨c, hprobe⟩ : ∃ c, hashidProbe hi id hi.cap 0 = some c :=
    ⟨_, hd.probe_eq (fun k hk => hashidIndex_of_le hid (by omega)) (Nat.zero_le d)
      (Nat.zero_add _)⟩
  obtain ⟨hcap, hcfree⟩ := hashidProbe_some (Nat.le_refl _) hprobe
  exact ⟨hi.link c id, c, by simp [hashidInsert, hprobe, hok.free c hcap hcfree]⟩

end HashidOk

end NetgameFormal
