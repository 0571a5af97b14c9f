import NetgameFormal.Hashmap
import Mathlib.Data.List.Nodup

/-!
# The entries of a hash map

A map holds the insertions that have not been removed. Its buckets are chains of
their nodes, the newest first, so that a search finds the newest entry that the
map takes for its key, and a removal takes that entry out.
-/

set_option autoImplicit false

namespace NetgameFormal

open AssocLists

/-- An insertion: the node that was allocated for it, its key and its value. -/
structure MapEntry where
  addr : Nat
  key : CString
  value : BitVec 32

/-- The map takes the key of `e` for `key`. -/
def MapEntry.sameKey (key : CString) (e : MapEntry) : Bool :=
  decide (keyIdentity e.key.chars = keyIdentity key.chars)

/-- The value that a search for `key` finds among the entries, or -1. -/
def foundValue (l : List MapEntry) (key : CString) : BitVec 32 :=
  ((l.find? (MapEntry.sameKey key)).map MapEntry.value).getD (-1)

namespace Hashmap

def next (hash : Hashmap) (a : Nat) : Option Nat := (hash.heap a).bind KeyValue.next

def inBucket (hash : Hashmap) (b : Nat) (e : MapEntry) : Bool :=
  decide (hash.bucket (hashString e.key.chars) = b)

/-- The node of `e` is allocated, and filled for `e`. -/
def Stores (hash : Hashmap) (e : MapEntry) : Prop :=
  ∃ node, hash.heap e.addr = some node ∧ node.key = some (e.key.object.take GLOBALNAME_LENGTH) ∧
    node.hash = hashString e.key.chars ∧ node.value = e.value

/-- The entries of the map, the newest first. -/
structure Represents (hash : Hashmap) (l : List MapEntry) : Prop where
  chains : ∀ b, Chain hash.next (hash.node b) ((l.filter (hash.inBucket b)).map MapEntry.addr)
  stored : ∀ e ∈ l, hash.Stores e
  allocated : ∀ a, hash.heap a ≠ none → ∃ e ∈ l, e.addr = a
  distinct : (l.map MapEntry.addr).Nodup
  length_le : l.length ≤ hash.mallocs

variable {hash hash' : Hashmap} {l : List MapEntry} {key : CString} {e : MapEntry}

theorem represents_new (hashSize : Nat) : (hashNew hashSize).Represents [] where
  chains _ := rfl
  stored _ he := absurd he List.not_mem_nil
  allocated _ ha := absurd rfl ha
  distinct := List.nodup_nil
  length_le := Nat.le_refl _

theorem inBucket_of_sameKey (he : e.sameKey key = true) :
    hash.inBucket (hash.bucket (hashString key.chars)) e = true := by
  have hhash : hashString e.key.chars = hashString key.chars :=
    (Prod.mk.inj (of_decide_eq_true he)).1
  rw [inBucket, hhash]
  exact decide_eq_true rfl

theorem not_inBucket {b b' : Nat} (hb : b ≠ b') (hin : hash.inBucket b' e = true) :
    hash.inBucket b e = false := by
  apply decide_eq_false
  intro heq
  exact hb (heq.symm.trans (of_decide_eq_true hin))

theorem not_inBucket_of_sameKey {b : Nat} (hb : b ≠ hash.bucket (hashString key.chars))
    (he : e.sameKey key = true) : hash.inBucket b e = false :=
  not_inBucket hb (inBucket_of_sameKey he)

theorem next_congr {a : Nat} (h : hash'.heap a = hash.heap a) : hash'.next a = hash.next a := by
  rw [next, next, h]

section Link

variable {node : KeyValue} {a b c : Nat}

theorem link_heap_self : (hash.link b a node).heap a = some node := by
  simp only [link, Function.update_self]

theorem link_heap_of_ne (hc : c ≠ a) : (hash.link b a node).heap c = hash.heap c := by
  simp only [link, Function.update_of_ne hc]

theorem link_node_self : (hash.link b a node).node b = some a := by
  simp only [link, Function.update_self]

theorem link_node_of_ne (hc : c ≠ b) : (hash.link b a node).node c = hash.node c := by
  simp only [link, Function.update_of_ne hc]

theorem link_inBucket : (hash.link b a node).inBucket = hash.inBucket := rfl

end Link

/-- An insertion returns exactly when the first 32 bytes of its key may be read. -/
theorem hashInsert_eq_some_iff {value : BitVec 32} {a : Nat} :
    hashInsert hash key value a = some hash' ↔ GLOBALNAME_LENGTH ≤ key.object.length ∧
      hash' = hash.link (hash.bucket (hashString key.chars)) a
        ⟨hash.node (hash.bucket (hashString key.chars)), some (key.object.take GLOBALNAME_LENGTH),
          hashString key.chars, value⟩ := by
  by_cases hread : GLOBALNAME_LENGTH ≤ key.object.length
  · rw [hashInsert, CString.bytes, if_pos hread]
    simp [hread, eq_comm]
  · rw [hashInsert, CString.bytes, if_neg hread]
    simp [hread]

theorem exists_hashInsert (hread : GLOBALNAME_LENGTH ≤ key.object.length) (hash : Hashmap)
    (value : BitVec 32) (a : Nat) : ∃ hash', hashInsert hash key value a = some hash' :=
  ⟨_, hashInsert_eq_some_iff.mpr ⟨hread, rfl⟩⟩

/-! ## Searching -/

theorem Stores.hasKey {node : KeyValue}
    (hkey : node.key = some (e.key.object.take GLOBALNAME_LENGTH))
    (hhash : node.hash = hashString e.key.chars) (key : CString) :
    node.hasKey (hashString key.chars) key = some (e.sameKey key) := hasKey_stored hhash hkey key

theorem searchLoop_eq {p : Option Nat} {n : Nat} (hl : Chain hash.next p (l.map MapEntry.addr))
    (hn : l.length ≤ n) (hstored : ∀ e ∈ l, hash.Stores e) :
    hashSearchLoop hash (hashString key.chars) key n p = some (foundValue l key) := by
  induction l generalizing p n with
  | nil =>
    obtain rfl := Chain.nil_iff.mp hl
    cases n <;> rfl
  | cons e l ih =>
    obtain ⟨rfl, htail⟩ := hl
    obtain ⟨node, hnode, hkey, hhash, hvalue⟩ := hstored e List.mem_cons_self
    cases n with
    | zero => cases hn
    | succ n =>
      have hnext : hash.next e.addr = node.next := by rw [next, hnode, Option.bind_some]
      rw [hashSearchLoop, hnode, Option.bind_eq_bind, Option.bind_some, Stores.hasKey hkey hhash,
        Option.bind_eq_bind, Option.bind_some]
      by_cases he : e.sameKey key = true
      · rw [foundValue, List.find?_cons_of_pos he, if_pos he, hvalue]
        rfl
      · rw [foundValue, List.find?_cons_of_neg he, if_neg he, ← hnext]
        exact ih htail (Nat.le_of_succ_le_succ hn) fun e' he' =>
          hstored e' (List.mem_cons_of_mem e he')

theorem find?_bucket (hash : Hashmap) (l : List MapEntry) (key : CString) :
    (l.filter (hash.inBucket (hash.bucket (hashString key.chars)))).find? (MapEntry.sameKey key)
      = l.find? (MapEntry.sameKey key) :=
  find?_filter_of_matches fun _ he => inBucket_of_sameKey he

/-- A search sees the entries of its bucket only, and these are all it needs. -/
theorem foundValue_filter (l : List MapEntry) (key : CString) :
    foundValue (l.filter (hash.inBucket (hash.bucket (hashString key.chars)))) key
      = foundValue l key := by
  rw [foundValue, foundValue, find?_bucket]

namespace Represents

theorem search_eq (h : hash.Represents l) (key : CString) :
    hashSearch hash key = some (foundValue l key) := by
  rw [hashSearch, searchLoop_eq (h.chains _) ?_ ?_, foundValue_filter]
  · exact Nat.le_trans (List.length_filter_le _ _) h.length_le
  · intro e he
    exact h.stored e (List.mem_filter.mp he).1

/-! ## Insertion -/

theorem addr_ne (h : hash.Represents l) {a : Nat} (hfree : hash.heap a = none) (he : e ∈ l) :
    e.addr ≠ a := by
  rintro rfl
  obtain ⟨node, hnode, -⟩ := h.stored e he
  rw [hfree] at hnode
  cases hnode

theorem insert (h : hash.Represents l) {a : Nat} (hfree : hash.heap a = none) {value : BitVec 32}
    (hinsert : hashInsert hash key value a = some hash') :
    hash'.Represents (⟨a, key, value⟩ :: l) := by
  obtain ⟨-, rfl⟩ := hashInsert_eq_some_iff.mp hinsert
  refine ⟨?_, ?_, ?_, ?_, Nat.succ_le_succ h.length_le⟩
  · intro b
    have hkept : ∀ {b' : Nat} {node : KeyValue}, Chain (hash.link b' a node).next (hash.node b)
        ((l.filter (hash.inBucket b)).map MapEntry.addr) := by
      intro b' node
      refine Chain.congr ?_ (h.chains b)
      intro c hc
      obtain ⟨e, he, rfl⟩ := List.mem_map.mp hc
      apply next_congr
      exact link_heap_of_ne (h.addr_ne hfree (List.mem_filter.mp he).1)
    rw [link_inBucket]
    by_cases hb : hash.bucket (hashString key.chars) = b
    · have hin : hash.inBucket b ⟨a, key, value⟩ = true := decide_eq_true hb
      rw [List.filter_cons_of_pos hin, ← hb]
      refine ⟨link_node_self, ?_⟩
      rw [next, link_heap_self, Option.bind_some, hb]
      exact hkept
    · have hout : ¬ hash.inBucket b ⟨a, key, value⟩ = true := by
        rw [inBucket, decide_eq_true_eq]
        exact hb
      rw [List.filter_cons_of_neg hout, link_node_of_ne (Ne.symm hb)]
      exact hkept
  · intro e he
    cases he with
    | head => exact ⟨_, link_heap_self, rfl, rfl, rfl⟩
    | tail _ he =>
      obtain ⟨node, hnode, hrest⟩ := h.stored e he
      refine ⟨node, ?_, hrest⟩
      rw [link_heap_of_ne (h.addr_ne hfree he)]
      exact hnode
  · intro c hc
    by_cases hca : c = a
    · exact ⟨_, List.mem_cons_self, hca.symm⟩
    · rw [link_heap_of_ne hca] at hc
      obtain ⟨e, he, haddr⟩ := h.allocated c hc
      exact ⟨e, List.mem_cons_of_mem _ he, haddr⟩
  · rw [List.map_cons, List.nodup_cons]
    refine ⟨?_, h.distinct⟩
    intro hmem
    obtain ⟨e, he, haddr⟩ := List.mem_map.mp hmem
    exact h.addr_ne hfree he haddr

/-! ## Removal -/

theorem eq_of_addr (h : hash.Represents l) {e' : MapEntry} (he : e ∈ l) (he' : e' ∈ l)
    (haddr : e.addr = e'.addr) : e = e' :=
  List.inj_on_of_nodup_map h.distinct he he' haddr

theorem addr_ne_of_bucket (h : hash.Represents l) {b : Nat} {e' : MapEntry} (he : e ∈ l)
    (hout : hash.inBucket b e = false) (he' : e' ∈ l) (hin : hash.inBucket b e' = true) :
    e'.addr ≠ e.addr := by
  intro haddr
  rw [h.eq_of_addr he' he haddr, hout] at hin
  cases hin

/-- Taking the first entry for a key out of the chain of its bucket and freeing its node. -/
theorem removed (h : hash.Represents l) (hfirst : l.find? (MapEntry.sameKey key) = some e)
    (hsize : hash'.hashSize = hash.hashSize) (hmallocs : hash'.mallocs = hash.mallocs)
    (hstored : ∀ e' ∈ l, e'.addr ≠ e.addr → hash'.Stores e')
    (hfreed : ∀ a, hash'.heap a ≠ none → a ≠ e.addr ∧ hash.heap a ≠ none)
    (helsewhere : ∀ b, b ≠ hash.bucket (hashString key.chars) → hash'.node b = hash.node b ∧
      ∀ e' ∈ l, hash.inBucket b e' = true → hash'.next e'.addr = hash.next e'.addr)
    (hhere : Chain hash'.next (hash'.node (hash.bucket (hashString key.chars)))
      (((l.filter (hash.inBucket (hash.bucket (hashString key.chars)))).eraseP
        (MapEntry.sameKey key)).map MapEntry.addr)) :
    hash'.Represents (l.eraseP (MapEntry.sameKey key)) where
  chains b := by
    have hin : hash'.inBucket b = hash.inBucket b := by
      funext e'
      rw [inBucket, inBucket, bucket, bucket, hsize]
    rw [hin]
    by_cases hb : b = hash.bucket (hashString key.chars)
    · rw [hb, filter_eraseP_of_matches fun _ he' => inBucket_of_sameKey he']
      exact hhere
    · obtain ⟨hnode, hnext⟩ := helsewhere b hb
      rw [filter_eraseP_of_disjoint fun _ he' => not_inBucket_of_sameKey hb he', hnode]
      refine Chain.congr ?_ (h.chains b)
      intro c hc
      obtain ⟨e', he', rfl⟩ := List.mem_map.mp hc
      obtain ⟨hmem, hbucket⟩ := List.mem_filter.mp he'
      exact hnext e' hmem hbucket
  stored e' he' := by
    obtain ⟨pre, post, rfl, herase, -, -⟩ := exists_split hfirst
    have hmem : e' ∈ pre ++ e :: post := List.mem_of_mem_eraseP he'
    refine hstored e' hmem ?_
    intro haddr
    have hdistinct := h.distinct
    rw [List.map_append, List.map_cons, List.nodup_middle, List.nodup_cons] at hdistinct
    apply hdistinct.1
    rw [← List.map_append, ← herase, ← haddr]
    exact List.mem_map_of_mem he'
  allocated a ha := by
    obtain ⟨hne, hold⟩ := hfreed a ha
    obtain ⟨e', he', rfl⟩ := h.allocated a hold
    obtain ⟨pre, post, rfl, herase, -, -⟩ := exists_split hfirst
    refine ⟨e', ?_, rfl⟩
    rw [herase]
    rw [List.mem_append, List.mem_cons] at he'
    rcases he' with hpre | rfl | hpost
    · exact List.mem_append_left _ hpre
    · exact absurd rfl hne
    · exact List.mem_append_right _ hpost
  distinct := h.distinct.sublist (List.eraseP_sublist.map _)
  length_le := by
    rw [hmallocs]
    exact Nat.le_trans List.length_eraseP_le h.length_le

theorem removed_head (h : hash.Represents l) {post : List MapEntry} {p : Option Nat}
    (hfilter : l.filter (hash.inBucket (hash.bucket (hashString key.chars))) = e :: post)
    (he : e.sameKey key = true) (hnext : hash.next e.addr = p) :
    ((hash.setHead (hash.bucket (hashString key.chars)) p).free e.addr).Represents
      (l.eraseP (MapEntry.sameKey key)) := by
  have hfirst : l.find? (MapEntry.sameKey key) = some e := by
    rw [← find?_bucket hash, hfilter, List.find?_cons_of_pos he]
  have hmem : e ∈ l := List.mem_of_find?_eq_some hfirst
  have hsame : ∀ c, c ≠ e.addr →
      ((hash.setHead (hash.bucket (hashString key.chars)) p).free e.addr).heap c = hash.heap c :=
    fun c hc => Function.update_of_ne hc _ _
  have hchain := h.chains (hash.bucket (hashString key.chars))
  refine h.removed hfirst rfl rfl ?_ ?_ ?_ ?_
  · intro e' he' hne
    obtain ⟨node, hnode, hrest⟩ := h.stored e' he'
    exact ⟨node, (hsame _ hne).trans hnode, hrest⟩
  · intro c hc
    by_cases hce : c = e.addr
    · rw [hce] at hc
      exact absurd (Function.update_self _ _ _) hc
    · exact ⟨hce, hsame c hce ▸ hc⟩
  · intro b hb
    refine ⟨Function.update_of_ne hb _ _, ?_⟩
    intro e' he' hin
    apply next_congr
    exact hsame _ (h.addr_ne_of_bucket hmem (not_inBucket_of_sameKey hb he) he' hin)
  · rw [hfilter] at hchain ⊢
    rw [List.eraseP_cons_of_pos he]
    have hnode : ((hash.setHead (hash.bucket (hashString key.chars)) p).free e.addr).node
        (hash.bucket (hashString key.chars)) = p := Function.update_self _ _ _
    rw [hnode, ← hnext]
    refine Chain.congr ?_ hchain.2
    intro c hc
    rw [hnext]
    apply next_congr
    apply hsame
    rintro rfl
    exact hchain.mem_tail_not_head hc

theorem removed_behind (h : hash.Represents l) {l₁ l₂ : List MapEntry} {prev : MapEntry}
    {ptr : KeyValue} {p : Option Nat}
    (hfilter : l.filter (hash.inBucket (hash.bucket (hashString key.chars)))
      = l₁ ++ prev :: e :: l₂)
    (hfirst : l.find? (MapEntry.sameKey key) = some e)
    (herase : (l.filter (hash.inBucket (hash.bucket (hashString key.chars)))).eraseP
      (MapEntry.sameKey key) = l₁ ++ prev :: l₂)
    (hptr : hash.heap prev.addr = some ptr) (hnext : hash.next e.addr = p) :
    ((hash.setNext prev.addr ptr p).free e.addr).Represents
      (l.eraseP (MapEntry.sameKey key)) := by
  have hchain := h.chains (hash.bucket (hashString key.chars))
  rw [hfilter, List.map_append, List.map_cons, List.map_cons] at hchain
  have hnodup := hchain.nodup
  simp only [List.nodup_append, List.nodup_cons, List.mem_cons, not_or] at hnodup
  obtain ⟨-, ⟨⟨hpe, hp₂⟩, he₂, -⟩, hdisj⟩ := hnodup
  have hp₁ : prev.addr ∉ l₁.map MapEntry.addr := fun hmem => hdisj _ hmem _ (.inl rfl) rfl
  have he₁ : e.addr ∉ l₁.map MapEntry.addr := fun hmem => hdisj _ hmem _ (.inr (.inl rfl)) rfl
  have hinside : prev ∈ l ∧ hash.inBucket (hash.bucket (hashString key.chars)) prev = true :=
    List.mem_filter.mp (hfilter ▸ List.mem_append_right _ List.mem_cons_self)
  have hmem : e ∈ l := List.mem_of_find?_eq_some hfirst
  have he : e.sameKey key = true := List.find?_some hfirst
  have hsame : ∀ c, c ≠ e.addr → c ≠ prev.addr →
      ((hash.setNext prev.addr ptr p).free e.addr).heap c = hash.heap c := fun c hc hc' =>
    (Function.update_of_ne hc _ _).trans (Function.update_of_ne hc' _ _)
  have hprev : ((hash.setNext prev.addr ptr p).free e.addr).heap prev.addr
      = some { ptr with next := p } :=
    (Function.update_of_ne hpe _ _).trans (Function.update_self _ _ _)
  refine h.removed hfirst rfl rfl ?_ ?_ ?_ ?_
  · intro e' he' hne
    obtain ⟨node, hnode, hkey, hhash, hvalue⟩ := h.stored e' he'
    by_cases haddr : e'.addr = prev.addr
    · rw [haddr, hptr] at hnode
      cases hnode
      exact ⟨_, (congrArg _ haddr).trans hprev, hkey, hhash, hvalue⟩
    · exact ⟨node, (hsame _ hne haddr).trans hnode, hkey, hhash, hvalue⟩
  · intro c hc
    by_cases hce : c = e.addr
    · rw [hce] at hc
      exact absurd (Function.update_self _ _ _) hc
    · refine ⟨hce, ?_⟩
      by_cases hcp : c = prev.addr
      · rw [hcp, hptr]
        exact Option.some_ne_none _
      · exact hsame c hce hcp ▸ hc
  · intro b hb
    refine ⟨rfl, ?_⟩
    intro e' he' hin
    apply next_congr
    apply hsame
    · exact h.addr_ne_of_bucket hmem (not_inBucket_of_sameKey hb he) he' hin
    · exact h.addr_ne_of_bucket hinside.1 (not_inBucket hb hinside.2) he' hin
  · rw [herase, List.map_append, List.map_cons]
    refine Chain.unlink hchain ?_ ?_
    · rw [next, hprev]
      exact hnext.symm
    · intro c hc
      apply next_congr
      apply hsame
      · rintro rfl
        exact (List.mem_append.mp hc).elim he₁ he₂
      · rintro rfl
        exact (List.mem_append.mp hc).elim hp₁ hp₂

theorem removeLoop_step {h : BitVec 32} {a b n : Nat} {ptr node : KeyValue} {found : Bool}
    (hptr : hash.heap a = some ptr) (hnext : ptr.next = some b) (hnode : hash.heap b = some node)
    (hfound : node.hasKey h key = some found) : hashRemoveLoop hash h key (n + 1) a =
      if found = true then some (some ((a, ptr), (b, node)))
      else hashRemoveLoop hash h key n b := by
  simp only [hashRemoveLoop, hptr, hnext, hnode, hfound, Option.bind_eq_bind, Option.bind_some]

theorem removeLoop_last {h : BitVec 32} {a n : Nat} {ptr : KeyValue}
    (hptr : hash.heap a = some ptr) (hnext : ptr.next = none) :
    hashRemoveLoop hash h key (n + 1) a = some none := by
  simp only [hashRemoveLoop, hptr, hnext, Option.bind_eq_bind, Option.bind_some]

/-- The loop finds the first entry for the key behind `e₀`, if there is one. -/
theorem removeLoop_eq {e₀ : MapEntry} {n : Nat}
    (hl : Chain hash.next (some e₀.addr) ((e₀ :: l).map MapEntry.addr)) (hn : l.length < n)
    (hstored : ∀ e ∈ e₀ :: l, hash.Stores e) :
    (l.find? (MapEntry.sameKey key) = none ∧
      hashRemoveLoop hash (hashString key.chars) key n e₀.addr = some none) ∨
    ∃ l₁ prev e l₂ ptr node, e₀ :: l = l₁ ++ prev :: e :: l₂ ∧
      l.find? (MapEntry.sameKey key) = some e ∧
      e₀ :: l.eraseP (MapEntry.sameKey key) = l₁ ++ prev :: l₂ ∧
      hash.heap prev.addr = some ptr ∧ hash.heap e.addr = some node ∧
      hashRemoveLoop hash (hashString key.chars) key n e₀.addr
        = some (some ((prev.addr, ptr), (e.addr, node))) := by
  induction l generalizing e₀ n with
  | nil =>
    obtain ⟨ptr, hptr, -⟩ := hstored e₀ List.mem_cons_self
    have hnext : ptr.next = none := by
      have hlast : hash.next e₀.addr = none := hl.2
      rwa [next, hptr, Option.bind_some] at hlast
    cases n with
    | zero => cases hn
    | succ n =>
      exact .inl ⟨rfl, removeLoop_last hptr hnext⟩
  | cons t l ih =>
    obtain ⟨ptr, hptr, -⟩ := hstored e₀ List.mem_cons_self
    obtain ⟨node, hnode, hkey, hhash, -⟩ := hstored t (List.mem_cons_of_mem _ List.mem_cons_self)
    have hnext : ptr.next = some t.addr := by
      have hbehind : hash.next e₀.addr = some t.addr := hl.2.1
      rwa [next, hptr, Option.bind_some] at hbehind
    cases n with
    | zero => cases hn
    | succ n =>
      have hstep := removeLoop_step (n := n) hptr hnext hnode (Stores.hasKey hkey hhash key)
      have hbehind : Chain hash.next (some t.addr) ((t :: l).map MapEntry.addr) := ⟨rfl, hl.2.2⟩
      rw [hstep]
      by_cases ht : t.sameKey key = true
      · right
        refine ⟨[], e₀, t, l, ptr, node, rfl, List.find?_cons_of_pos ht, ?_, hptr, hnode, if_pos ht⟩
        rw [List.eraseP_cons_of_pos ht]
        rfl
      · rw [if_neg ht, List.find?_cons_of_neg ht, List.eraseP_cons_of_neg ht]
        rcases ih hbehind (Nat.lt_of_succ_lt_succ hn) fun e he =>
            hstored e (List.mem_cons_of_mem _ he) with
          hnone | ⟨l₁, prev, e, l₂, ptr', node', hsplit, hfind, herase, hrest⟩
        · exact .inl hnone
        · right
          refine ⟨e₀ :: l₁, prev, e, l₂, ptr', node', ?_, hfind, ?_, hrest⟩
          · rw [hsplit]
            rfl
          · rw [herase]
            rfl

theorem hashRemove_eq {a : Nat} {ptr : KeyValue} {found : Bool}
    (hhead : hash.node (hash.bucket (hashString key.chars)) = some a)
    (hptr : hash.heap a = some ptr) (hkey : ptr.key ≠ none)
    (hfound : ptr.hasKey (hashString key.chars) key = some found) :
    hashRemove hash key =
      if found = true then
        some ((hash.setHead (hash.bucket (hashString key.chars)) ptr.next).free a, ptr.value)
      else
        hashRemoveLoop hash (hashString key.chars) key hash.mallocs a >>= fun out =>
          match out with
          | none => some (hash, -1)
          | some ((a, ptr), (b, node)) =>
            some ((hash.setNext a ptr node.next).free b, node.value) := by
  have hrun := hashRemove.eq_1 hash key
  generalize hashString key.chars = h at hhead hfound hrun ⊢
  simp only [hhead, hptr, hkey, hfound, Option.bind_eq_bind, Option.bind_some, if_false] at hrun
  exact hrun

theorem bucket_cons (h : hash.Represents l) {b : Nat} {e₀ : MapEntry} {rest : List MapEntry}
    (hfilter : l.filter (hash.inBucket b) = e₀ :: rest) :
    hash.node b = some e₀.addr ∧ Chain hash.next (some e₀.addr) ((e₀ :: rest).map MapEntry.addr) ∧
      rest.length < hash.mallocs ∧ ∀ e ∈ e₀ :: rest, hash.Stores e := by
  have hchain := h.chains b
  rw [hfilter] at hchain
  refine ⟨hchain.1, ⟨rfl, hchain.2⟩, ?_, ?_⟩
  · have hle := List.length_filter_le (hash.inBucket b) l
    rw [hfilter, List.length_cons] at hle
    exact Nat.lt_of_lt_of_le hle h.length_le
  · intro e he
    exact h.stored e (List.mem_filter.mp (hfilter ▸ he)).1

/-- A removal from an empty bucket uses a null pointer. -/
theorem remove_of_empty (h : hash.Represents l)
    (hempty : l.filter (hash.inBucket (hash.bucket (hashString key.chars))) = []) :
    hashRemove hash key = none := by
  have hchain := h.chains (hash.bucket (hashString key.chars))
  rw [hempty] at hchain
  have hnode : hash.node (hash.bucket (hashString key.chars)) = none := hchain
  rw [hashRemove, hnode]
  rfl

theorem remove_of_absent (h : hash.Represents l)
    (hbucket : l.filter (hash.inBucket (hash.bucket (hashString key.chars))) ≠ [])
    (habsent : l.find? (MapEntry.sameKey key) = none) : hashRemove hash key = some (hash, -1) := by
  obtain ⟨e₀, rest, hfilter⟩ := List.exists_cons_of_ne_nil hbucket
  obtain ⟨hhead, hchain, hlength, hstored⟩ := h.bucket_cons hfilter
  obtain ⟨ptr, hptr, hkey, hhash, -⟩ := hstored e₀ List.mem_cons_self
  rw [← find?_bucket hash, hfilter] at habsent
  have hother : ¬ e₀.sameKey key = true := by
    intro he
    rw [List.find?_cons_of_pos he] at habsent
    cases habsent
  rw [List.find?_cons_of_neg hother] at habsent
  have hfilled : ptr.key ≠ none := hkey ▸ Option.some_ne_none _
  rw [hashRemove_eq hhead hptr hfilled (Stores.hasKey hkey hhash key), if_neg hother]
  rcases removeLoop_eq hchain hlength hstored with
    ⟨-, hloop⟩ | ⟨l₁, prev, e, l₂, ptr', node, -, hfind, -⟩
  · rw [hloop]
    rfl
  · rw [habsent] at hfind
    cases hfind

theorem remove_of_present (h : hash.Represents l)
    (hpresent : l.find? (MapEntry.sameKey key) = some e) :
    ∃ hash', hashRemove hash key = some (hash', e.value) ∧ hash'.hashSize = hash.hashSize ∧
      hash'.heap e.addr = none ∧ hash'.Represents (l.eraseP (MapEntry.sameKey key)) := by
  have hbucket : l.filter (hash.inBucket (hash.bucket (hashString key.chars))) ≠ [] := by
    intro hempty
    rw [← find?_bucket hash, hempty] at hpresent
    cases hpresent
  obtain ⟨e₀, rest, hfilter⟩ := List.exists_cons_of_ne_nil hbucket
  obtain ⟨hhead, hchain, hlength, hstored⟩ := h.bucket_cons hfilter
  obtain ⟨ptr, hptr, hkey, hhash, hvalue⟩ := hstored e₀ List.mem_cons_self
  have hnext : hash.next e₀.addr = ptr.next := by rw [next, hptr, Option.bind_some]
  have hfirst := hpresent
  rw [← find?_bucket hash, hfilter] at hfirst
  have hfilled : ptr.key ≠ none := hkey ▸ Option.some_ne_none _
  rw [hashRemove_eq hhead hptr hfilled (Stores.hasKey hkey hhash key)]
  by_cases he₀ : e₀.sameKey key = true
  · rw [List.find?_cons_of_pos he₀] at hfirst
    cases hfirst
    rw [if_pos he₀, hvalue]
    exact ⟨_, rfl, rfl, Function.update_self _ _ _, h.removed_head hfilter he₀ hnext⟩
  · rw [List.find?_cons_of_neg he₀] at hfirst
    rw [if_neg he₀]
    rcases removeLoop_eq hchain hlength hstored with
      ⟨hnone, -⟩ | ⟨l₁, prev, e', l₂, ptr', node, hsplit, hfind, herase, hprev, hnode, hloop⟩
    · rw [hfirst] at hnone
      cases hnone
    · rw [hfirst] at hfind
      cases hfind
      have hmem : e ∈ l := List.mem_of_find?_eq_some hpresent
      have hnodeValue : node.value = e.value := by
        obtain ⟨node', hnode', -, -, hvalue'⟩ := h.stored e hmem
        rw [hnode] at hnode'
        cases hnode'
        exact hvalue'
      have hnodeNext : hash.next e.addr = node.next := by rw [next, hnode, Option.bind_some]
      rw [← List.eraseP_cons_of_neg he₀, ← hfilter] at herase
      rw [hloop, ← hnodeValue]
      exact ⟨_, rfl, rfl, Function.update_self _ _ _,
        h.removed_behind (hfilter.trans hsplit) hpresent herase hprev hnodeNext⟩

end Represents

end Hashmap

end NetgameFormal
