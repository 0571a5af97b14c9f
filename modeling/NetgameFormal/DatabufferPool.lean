import NetgameFormal.Databuffer

/-!
# The pool as a family of byte queues

Any number of databuffers, indexed by `ι`, share one pool. `Owns` says that
every node is in exactly one place, the free list or one chunk list. On top of
it `Queues` gives each databuffer its bytes, and the operations act on that
byte queue alone.
-/

set_option autoImplicit false

namespace NetgameFormal

universe u
variable {ι : Type u}

structure Owns (mp : Messagepool) (bufs : ι → Databuffer) (free : List Nat)
    (chunks : ι → List Nat) : Prop where
  freelist : Chain mp.next mp.freelist free
  chain : ∀ i, Chain mp.next (bufs i).head (chunks i)
  tail : ∀ i, (bufs i).tail = (chunks i).getLast?
  cover : ∀ a, a < mp.limit ↔ a ∈ free ∨ ∃ i, a ∈ chunks i
  apart : ∀ i, ∀ a ∈ chunks i, a ∉ free
  disjoint : ∀ i j, ∀ a ∈ chunks i, a ∈ chunks j → i = j

/-- The node `m` has been taken for a push: `free'` is left of the free list, and `m` is in no list. -/
structure Taken (mp mp₁ : Messagepool) (chunks : ι → List Nat) (free' : List Nat) (m : Nat) :
    Prop where
  freelist : Chain mp₁.next mp₁.freelist free'
  notMem_free : m ∉ free'
  notMem : ∀ i, m ∉ chunks i
  cover : ∀ a, a < mp₁.limit ↔ a = m ∨ a ∈ free' ∨ ∃ i, a ∈ chunks i
  apart : ∀ i, ∀ a ∈ chunks i, a ∉ free'
  kept : ∀ i, ∀ a ∈ chunks i, mp₁.node a = mp.node a

def chunkBytes (mp : Messagepool) (l : List Nat) : List Byte :=
  l.flatMap fun a => (mp.node a).buffer

@[simp] theorem chunkBytes_nil (mp : Messagepool) : chunkBytes mp [] = [] := rfl

@[simp] theorem chunkBytes_cons (mp : Messagepool) (a : Nat) (l : List Nat) :
    chunkBytes mp (a :: l) = (mp.node a).buffer ++ chunkBytes mp l := rfl

/-- The nodes of `l` hold the same chunks in both pools; their links may differ. -/
def SameData (mp mp' : Messagepool) (l : List Nat) : Prop :=
  ∀ a ∈ l, (mp'.node a).buffer = (mp.node a).buffer ∧ (mp'.node a).size = (mp.node a).size

theorem SameData.of_node_eq {mp mp' : Messagepool} {l : List Nat}
    (h : ∀ a ∈ l, mp'.node a = mp.node a) : SameData mp mp' l :=
  fun a ha => by simp [h a ha]

theorem chunkBytes_congr {mp mp' : Messagepool} {l : List Nat} (h : SameData mp mp' l) :
    chunkBytes mp' l = chunkBytes mp l := by
  induction l with
  | nil => rfl
  | cons a l ih =>
    rw [chunkBytes_cons, chunkBytes_cons, (h a List.mem_cons_self).1,
      ih fun b hb => h b (List.mem_cons_of_mem a hb)]

/-- The chunk list `l`, read from `offset` on, is `bytes`. -/
structure Counts (mp : Messagepool) (offset : Nat) (l : List Nat) (bytes : List Byte) : Prop where
  sizes : ∀ a ∈ l, (mp.node a).size = (mp.node a).buffer.length
  offset_le : offset ≤ (l.head?.map fun a => (mp.node a).buffer.length).getD 0
  bytes_eq : bytes = (chunkBytes mp l).drop offset

theorem Counts.congr {mp mp' : Messagepool} {offset : Nat} {l : List Nat} {bytes : List Byte}
    (h : Counts mp offset l bytes) (same : SameData mp mp' l) : Counts mp' offset l bytes := by
  refine ⟨fun a ha => ?_, ?_, ?_⟩
  · rw [(same a ha).1, (same a ha).2]
    exact h.sizes a ha
  · cases l with
    | nil => exact h.offset_le
    | cons a l => simpa [(same a List.mem_cons_self).1] using h.offset_le
  · rw [chunkBytes_congr same]
    exact h.bytes_eq

/-- The databuffers are the byte queues `bytes`. -/
def Queues (mp : Messagepool) (bufs : ι → Databuffer) (bytes : ι → List Byte) : Prop :=
  ∃ free chunks, Owns mp bufs free chunks ∧
    ∀ i, Counts mp (bufs i).offset (chunks i) (bytes i) ∧ (bufs i).size = (bytes i).length

namespace Owns
variable {mp : Messagepool} {bufs : ι → Databuffer} {free : List Nat} {chunks : ι → List Nat}

theorem lt_limit (h : Owns mp bufs free chunks) {i : ι} {a : Nat} (ha : a ∈ chunks i) :
    a < mp.limit :=
  (h.cover a).mpr (Or.inr ⟨i, ha⟩)

theorem length_le (h : Owns mp bufs free chunks) (i : ι) : (chunks i).length ≤ mp.limit :=
  length_le_of_nodup_lt (h.chain i).nodup fun _ ha => h.lt_limit ha

theorem empty (ι : Type u) (hpool : mp.pool = 0) (hfree : mp.freelist = none) :
    Owns mp (fun _ : ι => Databuffer.zero) [] (fun _ => []) where
  freelist := hfree
  chain := fun _ => rfl
  tail := fun _ => rfl
  cover := by simp [Messagepool.limit, hpool]
  apart := by simp
  disjoint := by simp

variable [DecidableEq ι]

theorem set_counters (h : Owns mp bufs free chunks) (i : ι) (db : Databuffer)
    (hhead : db.head = (bufs i).head) (htail : db.tail = (bufs i).tail) :
    Owns mp (Function.update bufs i db) free chunks := by
  have hends : ∀ j, (Function.update bufs i db j).head = (bufs j).head ∧
      (Function.update bufs i db j).tail = (bufs j).tail := by
    intro j
    by_cases hj : j = i
    · simp [hj, hhead, htail]
    · simp [hj]
  refine ⟨h.freelist, fun j => ?_, fun j => ?_, h.cover, h.apart, h.disjoint⟩
  · rw [(hends j).1]
    exact h.chain j
  · rw [(hends j).2]
    exact h.tail j

theorem mem_update_iff {i j : ι} {a : Nat} {l : List Nat} :
    a ∈ Function.update chunks i l j ↔ if j = i then a ∈ l else a ∈ chunks j := by
  by_cases hj : j = i
  · simp [hj]
  · simp [hj]

theorem release (h : Owns mp bufs free chunks) {i : ι} {a : Nat} {l : List Nat}
    (hi : chunks i = a :: l) {mp' : Messagepool} {db' : Databuffer} (hlimit : mp'.limit = mp.limit)
    (hfreed : mp'.freelist = some a) (hfirst : mp'.next a = mp.freelist)
    (hnext : ∀ b, b ≠ a → mp'.next b = mp.next b) (hhead : db'.head = mp.next a)
    (htail : db'.tail = l.getLast?) :
    Owns mp' (Function.update bufs i db') (a :: free) (Function.update chunks i l) := by
  have hchain := h.chain i
  rw [hi] at hchain
  obtain ⟨-, hrest⟩ := hchain
  have hal : a ∉ l := Chain.mem_tail_not_head (p := some a) ⟨rfl, hrest⟩
  have hafree : a ∉ free := h.apart i a (by simp [hi])
  have hother : ∀ {j b}, j ≠ i → b ∈ chunks j → b ≠ a := by
    intro j b hj hb heq
    subst heq
    exact hj (h.disjoint j i b hb (by simp [hi]))
  refine ⟨⟨hfreed, ?_⟩, fun j => ?_, fun j => ?_, fun b => ?_, fun j b hb => ?_,
    fun j k b hb hb' => ?_⟩
  · rw [hfirst]
    exact Chain.congr (fun b hb => hnext b fun h => hafree (h ▸ hb)) h.freelist
  · by_cases hj : j = i
    · subst hj
      simp only [Function.update_self, hhead]
      exact Chain.congr (fun b hb => hnext b fun h => hal (h ▸ hb)) hrest
    · simp only [Function.update_of_ne hj]
      exact Chain.congr (fun b hb => hnext b (hother hj hb)) (h.chain j)
  · by_cases hj : j = i
    · simp [hj, htail]
    · simp [hj, h.tail j]
  · rw [hlimit, h.cover b]
    simp only [List.mem_cons, mem_update_iff]
    constructor
    · rintro (hb | ⟨j, hb⟩)
      · exact Or.inl (Or.inr hb)
      · by_cases hj : j = i
        · subst hj
          rw [hi] at hb
          rcases List.mem_cons.mp hb with rfl | hb
          · exact Or.inl (Or.inl rfl)
          · exact Or.inr ⟨j, by simpa using hb⟩
        · exact Or.inr ⟨j, by simpa [hj] using hb⟩
    · rintro ((rfl | hb) | ⟨j, hb⟩)
      · exact Or.inr ⟨i, by simp [hi]⟩
      · exact Or.inl hb
      · by_cases hj : j = i
        · subst hj
          exact Or.inr ⟨j, by simp at hb; simp [hi, hb]⟩
        · exact Or.inr ⟨j, by simpa [hj] using hb⟩
  · rw [mem_update_iff] at hb
    rw [List.mem_cons, not_or]
    split at hb
    · next hj =>
      subst hj
      exact ⟨fun h => hal (h ▸ hb), h.apart j b (by simp [hi, hb])⟩
    · next hj => exact ⟨hother hj hb, h.apart j b hb⟩
  · have hmem : ∀ {j}, b ∈ Function.update chunks i l j → b ∈ chunks j := by
      intro j hb
      rw [mem_update_iff] at hb
      split at hb
      · next hj => simp [hj, hi, hb]
      · exact hb
    exact h.disjoint j k b (hmem hb) (hmem hb')

/-- `_return_message` moves the head chunk of one databuffer to the free list. -/
theorem returnMessage_spec (h : Owns mp bufs free chunks) {i : ι} {a : Nat} {l : List Nat}
    (hi : chunks i = a :: l) :
    ∃ db' mp', returnMessage (bufs i) mp = some (db', mp') ∧
      Owns mp' (Function.update bufs i db') (a :: free) (Function.update chunks i l) ∧
      db'.header = (bufs i).header ∧ db'.offset = (bufs i).offset ∧ db'.size = (bufs i).size ∧
      mp'.limit = mp.limit ∧ ∀ b, b ≠ a → mp'.node b = mp.node b := by
  have hchain := h.chain i
  rw [hi] at hchain
  obtain ⟨hhead, hrest⟩ := hchain
  let mp' : Messagepool := { mp.set a ⟨[], 0, mp.freelist⟩ with freelist := some a }
  have hsame : ∀ b, b ≠ a → mp'.node b = mp.node b := fun b hb => mp.set_node_of_ne _ hb
  have hmoved : ∀ db' : Databuffer, db'.head = mp.next a → db'.tail = l.getLast? →
      Owns mp' (Function.update bufs i db') (a :: free) (Function.update chunks i l) := by
    intro db' hh ht
    refine h.release hi rfl rfl (by simp [mp', Messagepool.next]) ?_ hh ht
    intro b hb
    rw [Messagepool.next, hsame b hb, Messagepool.next]
  have htail := h.tail i
  rw [hi] at htail
  cases l with
  | nil =>
    have hnone : (mp.node a).next = none := hrest
    refine ⟨{ bufs i with head := none, tail := none }, mp', ?_, hmoved _ ?_ rfl, rfl, rfl, rfl,
      rfl, hsame⟩
    · simp only [returnMessage, hhead, hnone]
      rw [if_pos (by simpa using htail)]
    · exact hnone.symm
  | cons b l =>
    have hsome : (mp.node a).next = some b := hrest.1
    refine ⟨{ bufs i with head := some b }, mp', ?_, hmoved _ ?_ ?_, rfl, rfl, rfl, rfl, hsame⟩
    · simp only [returnMessage, hhead, hsome]
      rfl
    · exact hsome.symm
    · simpa using htail

omit [DecidableEq ι] in
theorem chain_range' {next : Nat → Option Nat} {s k e : Nat} (he : s + k = e)
    (hnext : ∀ a, s ≤ a → a < e → next a = if a + 1 < e then some (a + 1) else none) :
    Chain next (if k = 0 then none else some s) (List.range' s k) := by
  induction k generalizing s with
  | zero => rfl
  | succ k ih =>
    refine ⟨rfl, ?_⟩
    rw [hnext s (Nat.le_refl s) (by omega)]
    have hrest := ih (s := s + 1) (by omega) fun a ha => hnext a (by omega)
    by_cases hk : k = 0
    · simp [hk, show ¬ s + 1 < e by omega]
    · simpa [hk, show s + 1 < e by omega] using hrest

omit [DecidableEq ι] in
theorem takeNode_spec (h : Owns mp bufs free chunks) :
    ∃ mp₁ m free', takeNode mp = (mp₁, m) ∧ Taken mp mp₁ chunks free' m := by
  have hfree := h.freelist
  cases hlist : mp.freelist with
  | some m =>
    rw [hlist] at hfree
    obtain ⟨free', rfl, hrest⟩ := Chain.of_some hfree
    refine ⟨{ mp with freelist := (mp.node m).next }, m, free', ?_, hrest,
      hfree.mem_tail_not_head, fun i hm => h.apart i m hm List.mem_cons_self, fun a => ?_,
      fun i a ha hf => h.apart i a ha (List.mem_cons_of_mem m hf), fun _ _ _ => rfl⟩
    · simp only [takeNode, hlist]
    · change a < mp.limit ↔ _
      rw [h.cover a, List.mem_cons, or_assoc]
  | none =>
    rw [hlist] at hfree
    obtain rfl := Chain.of_none hfree
    let mp₁ : Messagepool :=
      { pool := mp.pool + 1, node := freshBlock mp, freelist := some (mp.limit + 1) }
    have hlimit : mp₁.limit = mp.limit + MESSAGEPOOL := by
      change (mp.pool + 1) * MESSAGEPOOL = mp.pool * MESSAGEPOOL + MESSAGEPOOL
      exact Nat.succ_mul mp.pool MESSAGEPOOL
    have hold : ∀ a, a < mp.limit → mp₁.node a = mp.node a := by
      intro a ha
      change freshBlock mp a = mp.node a
      rw [freshBlock, if_neg (by omega)]
    refine ⟨mp₁, mp.limit, List.range' (mp.limit + 1) 1022, ?_, ?_, ?_, ?_, fun a => ?_,
      fun i a ha hf => ?_, fun i a ha => hold a (h.lt_limit ha)⟩
    · simp only [takeNode, hlist, mp₁]
    · refine chain_range' (s := mp.limit + 1) (k := 1022) (e := mp.limit + MESSAGEPOOL)
        (by simp [MESSAGEPOOL]) fun a ha ha' => ?_
      change (freshBlock mp a).next = _
      rw [freshBlock, if_pos ⟨by omega, ha'⟩]
    · rw [List.mem_range'_1]
      omega
    · exact fun i hm => Nat.lt_irrefl _ (h.lt_limit hm)
    · have hcover := h.cover a
      simp only [List.not_mem_nil, false_or] at hcover
      rw [← hcover, hlimit, List.mem_range'_1]
      simp only [MESSAGEPOOL]
      omega
    · have hlt := h.lt_limit ha
      rw [List.mem_range'_1] at hf
      omega

/-- A taken node goes behind the last chunk of one databuffer. -/
theorem attach (h : Owns mp bufs free chunks) {mp₁ : Messagepool} {free' : List Nat} {m : Nat}
    (ht : Taken mp mp₁ chunks free' m) {i : ι} {mp' : Messagepool} {db' : Databuffer}
    (hlimit : mp'.limit = mp₁.limit) (hlist : mp'.freelist = mp₁.freelist)
    (hnext : ∀ a ∈ free', mp'.next a = mp₁.next a)
    (hothers : ∀ j, j ≠ i → ∀ a ∈ chunks j, mp'.next a = mp.next a)
    (hchain : Chain mp'.next db'.head (chunks i ++ [m])) (htail : db'.tail = some m) :
    Owns mp' (Function.update bufs i db') free'
      (Function.update chunks i (chunks i ++ [m])) := by
  have hmem : ∀ {j a}, a ∈ Function.update chunks i (chunks i ++ [m]) j ↔
      (j = i ∧ a = m) ∨ a ∈ chunks j := by
    intro j a
    rw [mem_update_iff]
    by_cases hj : j = i
    · subst hj
      simp [or_comm]
    · simp [hj]
  refine ⟨?_, fun j => ?_, fun j => ?_, fun a => ?_, fun j a ha => ?_, fun j k a ha ha' => ?_⟩
  · rw [hlist]
    exact Chain.congr hnext ht.freelist
  · by_cases hj : j = i
    · subst hj
      simpa using hchain
    · simp only [Function.update_of_ne hj]
      exact Chain.congr (hothers j hj) (h.chain j)
  · by_cases hj : j = i
    · simp [hj, htail]
    · simp [hj, h.tail j]
  · rw [hlimit, ht.cover a]
    constructor
    · rintro (rfl | hf | ⟨j, hj⟩)
      · exact Or.inr ⟨i, hmem.mpr (Or.inl ⟨rfl, rfl⟩)⟩
      · exact Or.inl hf
      · exact Or.inr ⟨j, hmem.mpr (Or.inr hj)⟩
    · rintro (hf | ⟨j, hj⟩)
      · exact Or.inr (Or.inl hf)
      · rcases hmem.mp hj with ⟨-, rfl⟩ | hj
        · exact Or.inl rfl
        · exact Or.inr (Or.inr ⟨j, hj⟩)
  · rcases hmem.mp ha with ⟨-, rfl⟩ | ha
    · exact ht.notMem_free
    · exact ht.apart j a ha
  · rcases hmem.mp ha with ⟨rfl, rfl⟩ | ha
    · rcases hmem.mp ha' with ⟨rfl, -⟩ | ha'
      · rfl
      · exact absurd ha' (ht.notMem k)
    · rcases hmem.mp ha' with ⟨-, ham⟩ | ha'
      · exact absurd (ham ▸ ha) (ht.notMem j)
      · exact h.disjoint j k a ha ha'

/-- `databuffer_push` appends one node that carries the pushed chunk. -/
theorem push_spec (h : Owns mp bufs free chunks) (i : ι) (data : List Byte) :
    ∃ db' mp' free' m, databufferPush (bufs i) mp data = some (db', mp') ∧
      Owns mp' (Function.update bufs i db') free' (Function.update chunks i (chunks i ++ [m])) ∧
      (mp'.node m).buffer = data ∧ (mp'.node m).size = data.length ∧
      (∀ j, SameData mp mp' (chunks j)) ∧
      db'.header = (bufs i).header ∧ db'.offset = (bufs i).offset ∧
      db'.size = (bufs i).size + data.length := by
  obtain ⟨mp₁, m, free', htake, ht⟩ := h.takeNode_spec
  have hne : ∀ {j a}, a ∈ chunks j → a ≠ m := fun {j a} ha hm => ht.notMem j (hm ▸ ha)
  let mp₂ := mp₁.set m ⟨data, data.length, none⟩
  have hkept : ∀ {j a}, a ∈ chunks j → mp₂.node a = mp.node a := fun {j a} ha => by
    rw [mp₁.set_node_of_ne _ (hne ha), ht.kept j a ha]
  have hchain := h.chain i
  have htail := h.tail i
  cases hlast : (chunks i).getLast? with
  | none =>
    have hnil : chunks i = [] := List.getLast?_eq_none_iff.mp hlast
    rw [hnil] at hchain
    have hhead : (bufs i).head = none := hchain
    refine ⟨{ bufs i with size := (bufs i).size + data.length, head := some m, tail := some m },
      mp₂, free', m, ?_, h.attach ht rfl rfl ?_ ?_ ?_ rfl, by simp [mp₂], by simp [mp₂], ?_,
      rfl, rfl, rfl⟩
    · simp only [databufferPush, htake, hhead, htail, hlast, if_true, mp₂]
    · intro a ha
      have ham : a ≠ m := fun hm => ht.notMem_free (hm ▸ ha)
      rw [Messagepool.next, mp₁.set_node_of_ne _ ham, Messagepool.next]
    · intro j _ a ha
      rw [Messagepool.next, hkept ha, Messagepool.next]
    · rw [hnil]
      exact ⟨rfl, by simp [Messagepool.next, mp₂]⟩
    · exact fun j => .of_node_eq fun a ha => hkept ha
  | some t =>
    have hti : t ∈ chunks i := List.mem_of_getLast? hlast
    have htm : t ≠ m := hne hti
    obtain ⟨c, hhead⟩ : ∃ c, (bufs i).head = some c := by
      cases hhead : (bufs i).head with
      | none =>
        rw [hhead] at hchain
        rw [hchain.of_none] at hti
        simp at hti
      | some c => exact ⟨c, rfl⟩
    let mp₃ := mp₂.set t { mp₂.node t with next := some m }
    have hfar : ∀ b, b ≠ t → mp₃.node b = mp₂.node b := fun b hb => mp₂.set_node_of_ne _ hb
    have hsame : ∀ {j a}, a ∈ chunks j → a ≠ t → mp₃.next a = mp.next a := by
      intro j a ha hat
      rw [Messagepool.next, hfar a hat, hkept ha, Messagepool.next]
    refine ⟨{ bufs i with size := (bufs i).size + data.length, tail := some m }, mp₃, free', m,
      ?_, h.attach ht rfl rfl ?_ ?_ ?_ rfl, ?_, ?_, ?_, rfl, rfl, rfl⟩
    · simp only [databufferPush, htake, hhead, htail, hlast, mp₃, mp₂]
    · intro a ha
      have ham : a ≠ m := fun hm => ht.notMem_free (hm ▸ ha)
      have hat : a ≠ t := fun hat => ht.apart i t hti (hat ▸ ha)
      rw [Messagepool.next, hfar a hat, mp₁.set_node_of_ne _ ham, Messagepool.next]
    · intro j hj a ha
      exact hsame ha fun hat => hj (h.disjoint j i a ha (hat ▸ hti))
    · refine Chain.snoc hchain hlast (by simp [Messagepool.next, mp₃]) ?_ fun b hb hbt => hsame hb hbt
      rw [Messagepool.next, hfar m (Ne.symm htm)]
      simp [mp₂]
    · rw [hfar m (Ne.symm htm)]
      simp [mp₂]
    · rw [hfar m (Ne.symm htm)]
      simp [mp₂]
    · intro j a ha
      by_cases hat : a = t
      · subst hat
        simp [mp₃, hkept ha]
      · rw [hfar a hat, hkept ha]
        exact ⟨rfl, rfl⟩

theorem dropHead_spec {i : ι} {a : Nat} {l : List Nat} {db : Databuffer}
    (h : Owns mp (Function.update bufs i db) free (Function.update chunks i (a :: l)))
    (hsizes : ∀ b ∈ a :: l, (mp.node b).size = (mp.node b).buffer.length) :
    ∃ db' mp', returnMessage { db with offset := 0 } mp = some (db', mp') ∧
      Owns mp' (Function.update bufs i db') (a :: free) (Function.update chunks i l) ∧
      Counts mp' db'.offset l (chunkBytes mp l) ∧ db'.header = db.header ∧ db'.size = db.size ∧
      ∀ b, b ≠ a → mp'.node b = mp.node b := by
  have hal : a ∉ l := by
    have hchain := h.chain i
    rw [Function.update_self, Function.update_self] at hchain
    exact hchain.mem_tail_not_head
  have h₀ : Owns mp (Function.update bufs i { db with offset := 0 }) free
      (Function.update chunks i (a :: l)) := by
    simpa using h.set_counters i { db with offset := 0 } (by simp) (by simp)
  obtain ⟨db', mp', hreturn, howns, hheader, hoffset, hsize, -, hnodes⟩ :=
    h₀.returnMessage_spec (i := i) (Function.update_self ..)
  simp only [Function.update_self, Function.update_idem] at hreturn howns hheader hoffset hsize
  have hsame : SameData mp mp' l :=
    .of_node_eq fun b hb => hnodes b fun hba => hal (hba ▸ hb)
  refine ⟨db', mp', hreturn, howns, ⟨fun b hb => ?_, by omega, ?_⟩, hheader, hsize, hnodes⟩
  · rw [(hsame b hb).1, (hsame b hb).2]
    exact hsizes b (List.mem_cons_of_mem a hb)
  · rw [hoffset, chunkBytes_congr hsame, List.drop_zero]

/-- The read loop takes the first `sz` bytes and returns the chunks it empties. -/
theorem readLoop_spec {i : ι} {l : List Nat} {db : Databuffer} {bytes : List Byte} {n sz : Nat}
    (buffer : List Byte)
    (h : Owns mp (Function.update bufs i db) free (Function.update chunks i l))
    (hcounts : Counts mp db.offset l bytes) (hn : l.length ≤ n) (hsz : 0 < sz)
    (hle : sz ≤ bytes.length) :
    ∃ db' mp' free' l', databufferReadLoop n db mp buffer sz =
        some (db', mp', buffer ++ bytes.take sz) ∧
      Owns mp' (Function.update bufs i db') free' (Function.update chunks i l') ∧
      Counts mp' db'.offset l' (bytes.drop sz) ∧ db'.header = db.header ∧ db'.size = db.size ∧
      ∀ b, b ∉ l → mp'.node b = mp.node b := by
  induction l generalizing db mp free bytes n sz buffer with
  | nil =>
    rw [hcounts.bytes_eq] at hle
    simp at hle
    omega
  | cons a l ih =>
    obtain ⟨n, rfl⟩ : ∃ k, n = k + 1 := ⟨n - 1, by simp at hn; omega⟩
    have hhead : db.head = some a := by
      have hchain := h.chain i
      rw [Function.update_self, Function.update_self] at hchain
      exact hchain.1
    obtain ⟨hsizes, hoff, hbytes⟩ := hcounts
    have hoffa : db.offset ≤ (mp.node a).buffer.length := by simpa using hoff
    rw [chunkBytes_cons, List.drop_append_of_le_length hoffa] at hbytes
    generalize hpart : (mp.node a).buffer.drop db.offset = part at hbytes
    have hlen : part.length = (mp.node a).buffer.length - db.offset := by
      rw [← hpart, List.length_drop]
    have hbsz : (mp.node a).size - db.offset = part.length := by
      rw [hsizes a List.mem_cons_self, hlen]
    simp only [databufferReadLoop, hhead, hpart, hbsz]
    by_cases hlong : part.length > sz
    · rw [if_pos hlong]
      refine ⟨{ db with offset := db.offset + sz }, mp, free, a :: l, ?_, ?_, ⟨hsizes, ?_, ?_⟩, rfl,
        rfl, fun _ _ => rfl⟩
      · rw [hbytes, List.take_append_of_le_length (by omega), hhead]
      · simpa using h.set_counters i { db with offset := db.offset + sz } (by simp) (by simp)
      · simp only [List.head?_cons, Option.map_some, Option.getD_some]
        omega
      · have hwithin : db.offset + sz ≤ (mp.node a).buffer.length := by omega
        rw [hbytes, chunkBytes_cons, List.drop_append_of_le_length (by omega),
          List.drop_append_of_le_length hwithin, ← hpart, List.drop_drop]
    rw [if_neg hlong]
    obtain ⟨db', mp', hreturn, howns, hcounts', hheader, hsize, hnodes⟩ := h.dropHead_spec hsizes
    rw [hhead] at hreturn
    rw [hreturn]
    simp only [List.take_length]
    by_cases heq : part.length = sz
    · rw [if_pos heq]
      refine ⟨db', mp', a :: free, l, ?_, howns, ?_, hheader, hsize, fun b hb => ?_⟩
      · rw [hbytes, ← heq, List.take_left' rfl]
      · rw [hbytes, ← heq, List.drop_left' rfl]
        exact hcounts'
      · exact hnodes b fun hba => hb (hba ▸ List.mem_cons_self)
    · rw [if_neg heq]
      have htotal := congrArg List.length hbytes
      rw [List.length_append] at htotal
      have hmore : 0 < sz - part.length := by omega
      obtain ⟨db'', mp'', free'', l'', hloop, howns'', hcounts'', hheader'', hsize'', hnodes''⟩ :=
        ih (buffer ++ part) howns hcounts' (by simpa using hn) hmore (by omega)
      refine ⟨db'', mp'', free'', l'', ?_, howns'', ?_, hheader''.trans hheader,
        hsize''.trans hsize, fun b hb => ?_⟩
      · have htake : part.take sz = part := List.take_of_length_le (by omega)
        rw [hloop, hbytes, List.take_append, htake, List.append_assoc]
      · have hdrop : part.drop sz = [] := List.drop_eq_nil_of_le (by omega)
        rw [hbytes, List.drop_append, hdrop, List.nil_append]
        exact hcounts''
      · rw [List.mem_cons, not_or] at hb
        rw [hnodes'' b hb.2, hnodes b hb.1]

theorem clearLoop_spec {i : ι} {l : List Nat} {db : Databuffer} {n : Nat}
    (h : Owns mp (Function.update bufs i db) free (Function.update chunks i l))
    (hn : l.length ≤ n) :
    ∃ db' mp' free', databufferClearLoop n db mp = some (db', mp') ∧
      Owns mp' (Function.update bufs i .zero) free' (Function.update chunks i []) ∧
      ∀ b, b ∉ l → mp'.node b = mp.node b := by
  induction l generalizing db mp free n with
  | nil =>
    have hhead : db.head = none := by simpa using h.chain i
    have htail : db.tail = none := by simpa using h.tail i
    refine ⟨db, mp, free, ?_, ?_, fun _ _ => rfl⟩
    · cases n <;> simp only [databufferClearLoop, hhead]
    · simpa using h.set_counters i .zero (by simp [hhead, Databuffer.zero])
        (by simp [htail, Databuffer.zero])
  | cons a l ih =>
    obtain ⟨n, rfl⟩ : ∃ k, n = k + 1 := ⟨n - 1, by simp at hn; omega⟩
    have hchain := h.chain i
    simp only [Function.update_self] at hchain
    obtain ⟨db', mp', hreturn, howns, -, -, -, -, hnodes⟩ :=
      h.returnMessage_spec (i := i) (Function.update_self ..)
    simp only [Function.update_self, Function.update_idem] at hreturn howns
    obtain ⟨db'', mp'', free'', hloop, howns'', hnodes''⟩ := ih howns (by simpa using hn)
    refine ⟨db'', mp'', free'', ?_, howns'', fun b hb => ?_⟩
    · simp only [databufferClearLoop, hchain.1, hreturn, hloop]
    · rw [List.mem_cons, not_or] at hb
      rw [hnodes'' b hb.2, hnodes b hb.1]

end Owns

end NetgameFormal
