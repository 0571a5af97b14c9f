import NetgameFormal.Chains
import Mathlib.Logic.Function.Basic
import Mathlib.Data.Finset.Card
import Mathlib.Algebra.Ring.Nat
import Mathlib.Algebra.Ring.Int.Defs

/-!
# hashid.h: the table of live ids

Nodes live in one array and are linked into bucket chains by slot number.
`none` stands for a run that leaves the C program's defined behaviour: a failed
assertion, an index outside the node array, or a chain walk that does not end
within `cap` hops (a chain of distinct slots cannot be longer).
-/

set_option autoImplicit false

namespace NetgameFormal

structure HashidNode where
  id : Int
  next : Option Nat

structure Hashid where
  hashmod : Nat
  cap : Nat
  count : Int
  id : Nat → HashidNode
  hash : Nat → Option Nat

/-- What a table can be made for: above `2 ^ 30` the doubling of `hashcap` overflows an int, and
`hashid_init` does not return. -/
abbrev Capacity := {max : Nat // max ≤ 2 ^ 30}

/-- The doubling loop of `hashid_init`, at most `max` rounds of it. -/
def growHashcap (max : Nat) : Nat → Nat → Nat
  | 0, hashcap => hashcap
  | n + 1, hashcap => if hashcap < max then growHashcap max n (hashcap * 2) else hashcap

/-- `hashid_init`, once the number of lists is found. -/
def emptyHashid (hashcap max : Nat) : Hashid where
  hashmod := hashcap - 1
  cap := max
  count := 0
  id := fun _ => ⟨-1, none⟩
  hash := fun _ => none

def hashidInit (max : Capacity) : Hashid := emptyHashid (growHashcap max max 16) max

/-- The doubling loop of `hashid_init` on an int; none when `hashcap *= 2` overflows. -/
def growHashcapInt (max : Nat) : Nat → Nat → Option Nat
  | 0, _ => none
  | n + 1, hashcap =>
    if hashcap < max then
      if hashcap * 2 ≤ 2 ^ 31 - 1 then growHashcapInt max n (hashcap * 2) else none
    else some hashcap

/-- `hashid_init`; an int is doubled less than 32 times. -/
def hashidInitInt (max : Nat) : Option Hashid :=
  (growHashcapInt max 32 16).map fun hashcap => emptyHashid hashcap max

/-- `id & hi->hashmod` on 32-bit ints. -/
def Hashid.bucket (hi : Hashid) (id : Int) : Nat := (BitVec.ofInt 32 id).toNat &&& hi.hashmod

def hashidLookupLoop (hi : Hashid) (id : Int) : Nat → Option Nat → Option Int
  | _, none => some (-1)
  | 0, some _ => none
  | n + 1, some c =>
    if (hi.id c).id = id then some c else hashidLookupLoop hi id n (hi.id c).next

def hashidLookup (hi : Hashid) (id : Int) : Option Int :=
  hashidLookupLoop hi id hi.cap (hi.hash (hi.bucket id))

/-- The `while (c->next)` loop: the node found and its predecessor, if any. -/
def hashidRemoveLoop (hi : Hashid) (id : Int) : Nat → Nat → Option (Option (Nat × Nat))
  | 0, _ => none
  | n + 1, c =>
    match (hi.id c).next with
    | none => some none
    | some temp =>
      if (hi.id temp).id = id then some (some (c, temp)) else hashidRemoveLoop hi id n temp

/-- `hi->hash[h] = p` -/
def Hashid.setHead (hi : Hashid) (h : Nat) (p : Option Nat) : Hashid :=
  { hi with hash := Function.update hi.hash h p }

/-- `c->next = p` -/
def Hashid.setNext (hi : Hashid) (c : Nat) (p : Option Nat) : Hashid :=
  { hi with id := Function.update hi.id c { hi.id c with next := p } }

/-- The code at the label `_clear` of `hashid_remove`. -/
def Hashid.clear (hi : Hashid) (c : Nat) : Hashid :=
  { hi with id := Function.update hi.id c ⟨-1, none⟩, count := hi.count - 1 }

def hashidRemove (hi : Hashid) (id : Int) : Option (Hashid × Int) :=
  let h := hi.bucket id
  match hi.hash h with
  | none => some (hi, -1)
  | some c =>
    if (hi.id c).id = id then some ((hi.setHead h (hi.id c).next).clear c, c)
    else
      match hashidRemoveLoop hi id hi.cap c with
      | none => none
      | some none => some (hi, -1)
      | some (some (c, temp)) => some ((hi.setNext c (hi.id temp).next).clear temp, temp)

/-- `(i+id) % hi->cap` with 32-bit wrap-around and C's truncated remainder. -/
def hashidIndex (hi : Hashid) (id : Int) (i : Nat) : Int :=
  (Int.bmod (i + id) (2 ^ 32)).tmod hi.cap

def hashidProbe (hi : Hashid) (id : Int) : Nat → Nat → Option Nat
  | 0, _ => none
  | n + 1, i =>
    if hashidIndex hi id i < 0 then none
    else if (hi.id (hashidIndex hi id i).toNat).id = -1 then some (hashidIndex hi id i).toNat
    else hashidProbe hi id n (i + 1)

/-- The writes of `hashid_insert` once the free node `c` is found. -/
def Hashid.link (hi : Hashid) (c : Nat) (id : Int) : Hashid :=
  let h := hi.bucket id
  let next := if (hi.hash h).isSome then hi.hash h else (hi.id c).next
  { hi with
    count := hi.count + 1
    id := Function.update hi.id c ⟨id, next⟩
    hash := Function.update hi.hash h (some c) }

def hashidInsert (hi : Hashid) (id : Int) : Option (Hashid × Nat) :=
  match hashidProbe hi id hi.cap 0 with
  | none => none
  | some c => if (hi.id c).next = none then some (hi.link c id, c) else none

def hashidFull (hi : Hashid) : Bool := hi.count == hi.cap

/-! ## Initialisation -/

theorem growHashcapInt_eq {max k n m : Nat} (hmax : max ≤ 2 ^ 30) (hk : k ≤ 30) (hn : 30 < n + k)
    (hm : max ≤ 2 ^ k + m) : growHashcapInt max n (2 ^ k) = some (growHashcap max m (2 ^ k)) := by
  induction n generalizing k m with
  | zero => omega
  | succ n ih =>
    rw [growHashcapInt]
    by_cases hlt : 2 ^ k < max
    · have hk' : k + 1 ≤ 30 := by
        by_contra hnot
        obtain rfl : k = 30 := by omega
        omega
      have hdouble : (2 : Nat) ^ k * 2 = 2 ^ (k + 1) := (Nat.pow_succ 2 k).symm
      have hle : (2 : Nat) ^ (k + 1) ≤ 2 ^ 30 := Nat.pow_le_pow_right (by decide) hk'
      obtain ⟨m, rfl⟩ : ∃ m', m = m' + 1 := ⟨m - 1, by omega⟩
      rw [if_pos hlt, if_pos (by omega), growHashcap, if_pos hlt, hdouble]
      apply ih hk' (by omega)
      have hpos : 0 < 2 ^ k := Nat.two_pow_pos k
      omega
    · rw [if_neg hlt]
      cases m with
      | zero => rfl
      | succ m => rw [growHashcap, if_neg hlt]

theorem growHashcapInt_none {max k : Nat} (hmax : 2 ^ 30 < max) (hk : k ≤ 30) (n : Nat) :
    growHashcapInt max n (2 ^ k) = none := by
  induction n generalizing k with
  | zero => rfl
  | succ n ih =>
    have hle : (2 : Nat) ^ k ≤ 2 ^ 30 := Nat.pow_le_pow_right (by decide) hk
    have hdouble : (2 : Nat) ^ k * 2 = 2 ^ (k + 1) := (Nat.pow_succ 2 k).symm
    rw [growHashcapInt, if_pos (by omega), hdouble]
    split
    · next hint =>
      apply ih
      by_contra hnot
      obtain rfl : k = 30 := by omega
      exact absurd hint (by decide)
    · rfl

theorem hashidInitInt_eq {max : Nat} (hmax : max ≤ 2 ^ 30) :
    hashidInitInt max = some (hashidInit ⟨max, hmax⟩) := by
  have hgrow : growHashcapInt max 32 16 = some (growHashcap max max 16) :=
    growHashcapInt_eq (k := 4) hmax (by decide) (by decide) (Nat.le_add_left _ _)
  rw [hashidInitInt, hgrow]
  rfl

theorem hashidInitInt_none {max : Nat} (hmax : 2 ^ 30 < max) : hashidInitInt max = none := by
  have hgrow : growHashcapInt max 32 16 = none :=
    growHashcapInt_none (k := 4) hmax (by decide) 32
  rw [hashidInitInt, hgrow]
  rfl

/-! ## The invariant -/

def Hashid.next (hi : Hashid) (a : Nat) : Option Nat := (hi.id a).next

/-- Slot `a` holds the id `id`. -/
def Hashid.Holds (hi : Hashid) (id : Int) (a : Nat) : Prop :=
  a < hi.cap ∧ (hi.id a).id = id ∧ id ≠ -1

instance (hi : Hashid) (id : Int) (a : Nat) : Decidable (hi.Holds id a) :=
  inferInstanceAs (Decidable (_ ∧ _ ∧ _))

def Hashid.occupied (hi : Hashid) : Finset Nat :=
  (Finset.range hi.cap).filter fun a => (hi.id a).id ≠ -1

structure HashidOk (hi : Hashid) : Prop where
  chains : ∀ h, ∃ l, Chain hi.next (hi.hash h) l ∧
    ∀ a, a ∈ l ↔ a < hi.cap ∧ (hi.id a).id ≠ -1 ∧ hi.bucket (hi.id a).id = h
  free : ∀ a, a < hi.cap → (hi.id a).id = -1 → (hi.id a).next = none
  distinct : ∀ {id a b}, hi.Holds id a → hi.Holds id b → a = b
  count : hi.count = hi.occupied.card

@[simp] theorem Hashid.setHead_id (hi : Hashid) (h : Nat) (p : Option Nat) :
    (hi.setHead h p).id = hi.id := rfl

@[simp] theorem Hashid.setNext_hash (hi : Hashid) (c : Nat) (p : Option Nat) :
    (hi.setNext c p).hash = hi.hash := rfl

@[simp] theorem Hashid.setNext_id (hi : Hashid) (c b : Nat) (p : Option Nat) :
    ((hi.setNext c p).id b).id = (hi.id b).id := by
  by_cases hb : b = c
  · simp [Hashid.setNext, hb]
  · simp [Hashid.setNext, hb]

@[simp] theorem Hashid.setNext_self (hi : Hashid) (c : Nat) (p : Option Nat) :
    ((hi.setNext c p).id c).next = p := by
  simp [Hashid.setNext]

theorem Hashid.setNext_of_ne (hi : Hashid) {b c : Nat} (p : Option Nat) (hb : b ≠ c) :
    (hi.setNext c p).id b = hi.id b := by
  simp [Hashid.setNext, hb]

@[simp] theorem Hashid.clear_hash (hi : Hashid) (c : Nat) : (hi.clear c).hash = hi.hash := rfl

@[simp] theorem Hashid.clear_self (hi : Hashid) (c : Nat) : (hi.clear c).id c = ⟨-1, none⟩ := by
  simp [Hashid.clear]

theorem Hashid.clear_of_ne (hi : Hashid) {b c : Nat} (hb : b ≠ c) :
    (hi.clear c).id b = hi.id b := by
  simp [Hashid.clear, hb]

@[simp] theorem Hashid.link_count (hi : Hashid) (c : Nat) (id : Int) :
    (hi.link c id).count = hi.count + 1 := rfl

@[simp] theorem Hashid.link_hash_self (hi : Hashid) (c : Nat) (id : Int) :
    (hi.link c id).hash (hi.bucket id) = some c := by
  simp [Hashid.link]

theorem Hashid.link_hash_of_ne (hi : Hashid) {h c : Nat} {id : Int} (hh : h ≠ hi.bucket id) :
    (hi.link c id).hash h = hi.hash h := by
  simp [Hashid.link, hh]

theorem Hashid.link_self (hi : Hashid) {c : Nat} (id : Int) (hc : (hi.id c).next = none) :
    (hi.link c id).id c = ⟨id, hi.hash (hi.bucket id)⟩ := by
  cases hh : hi.hash (hi.bucket id) <;> simp [Hashid.link, hc, hh]

theorem Hashid.link_of_ne (hi : Hashid) {b c : Nat} (id : Int) (hb : b ≠ c) :
    (hi.link c id).id b = hi.id b := by
  simp [Hashid.link, hb]

/-- `hi'` differs from `hi` in the id of slot `a`, and in links. -/
structure Hashid.SetAt (hi hi' : Hashid) (a : Nat) (id : Int) : Prop where
  cap : hi'.cap = hi.cap
  hashmod : hi'.hashmod = hi.hashmod
  here : (hi'.id a).id = id
  elsewhere : ∀ b, b ≠ a → (hi'.id b).id = (hi.id b).id

theorem emptyHashid_ok (hashcap max : Nat) : HashidOk (emptyHashid hashcap max) where
  chains := fun _ => ⟨[], rfl, by simp [emptyHashid]⟩
  free := fun _ _ _ => rfl
  distinct := by
    rintro id a b ⟨_, ha, hid⟩ _
    exact absurd ha.symm hid
  count := by simp [emptyHashid, Hashid.occupied]

namespace HashidOk
variable {hi : Hashid} {id : Int} {a : Nat}

theorem chain_length {l : List Nat} {h : Nat} (hl : Chain hi.next (hi.hash h) l)
    (hmem : ∀ a, a ∈ l ↔ a < hi.cap ∧ (hi.id a).id ≠ -1 ∧ hi.bucket (hi.id a).id = h) :
    l.length ≤ hi.cap :=
  length_le_of_nodup_lt hl.nodup fun a ha => ((hmem a).mp ha).1

theorem lookupLoop_found {l : List Nat} {p : Option Nat} {n : Nat} (hl : Chain hi.next p l)
    (hn : l.length ≤ n) (ha : a ∈ l) (hid : (hi.id a).id = id)
    (honly : ∀ b ∈ l, (hi.id b).id = id → b = a) :
    hashidLookupLoop hi id n p = some (a : Int) := by
  induction l generalizing p n with
  | nil => simp at ha
  | cons c l ih =>
    obtain ⟨rfl, htail⟩ := hl
    cases n with
    | zero => simp at hn
    | succ n =>
      rw [hashidLookupLoop]
      split
      · next hc => rw [honly c List.mem_cons_self hc]
      · next hc =>
        have hal : a ∈ l := by
          rcases List.mem_cons.mp ha with rfl | ha
          · exact absurd hid hc
          · exact ha
        exact ih htail (by simpa using hn) hal fun b hb => honly b (List.mem_cons_of_mem c hb)

theorem lookupLoop_absent {l : List Nat} {p : Option Nat} {n : Nat} (hl : Chain hi.next p l)
    (hn : l.length ≤ n) (hnone : ∀ b ∈ l, (hi.id b).id ≠ id) :
    hashidLookupLoop hi id n p = some (-1) := by
  induction l generalizing p n with
  | nil =>
    obtain rfl := Chain.nil_iff.mp hl
    cases n <;> rfl
  | cons c l ih =>
    obtain ⟨rfl, htail⟩ := hl
    cases n with
    | zero => simp at hn
    | succ n =>
      rw [hashidLookupLoop, if_neg (hnone c List.mem_cons_self)]
      exact ih htail (by simpa using hn) fun b hb => hnone b (List.mem_cons_of_mem c hb)

theorem lookup_of_holds (hok : HashidOk hi) (ha : hi.Holds id a) :
    hashidLookup hi id = some (a : Int) := by
  obtain ⟨l, hl, hmem⟩ := hok.chains (hi.bucket id)
  obtain ⟨hcap, hid, hne⟩ := ha
  refine lookupLoop_found hl (chain_length hl hmem) ((hmem a).mpr ⟨hcap, by rw [hid]; exact hne,
    by rw [hid]⟩) hid fun b hb hbid => ?_
  exact hok.distinct ⟨((hmem b).mp hb).1, hbid, hne⟩ ⟨hcap, hid, hne⟩

theorem lookup_of_absent (hok : HashidOk hi) (h : ∀ a, ¬ hi.Holds id a) :
    hashidLookup hi id = some (-1) := by
  obtain ⟨l, hl, hmem⟩ := hok.chains (hi.bucket id)
  refine lookupLoop_absent hl (chain_length hl hmem) fun b hb hbid => ?_
  obtain ⟨hcap, hocc, -⟩ := (hmem b).mp hb
  exact h b ⟨hcap, hbid, hbid ▸ hocc⟩

theorem lookup_cases (hok : HashidOk hi) (id : Int) :
    (∃ a, hi.Holds id a ∧ hashidLookup hi id = some (a : Int)) ∨
      ((∀ a, ¬ hi.Holds id a) ∧ hashidLookup hi id = some (-1)) := by
  by_cases h : ∃ a, hi.Holds id a
  · obtain ⟨a, ha⟩ := h
    exact Or.inl ⟨a, ha, hok.lookup_of_holds ha⟩
  · have hnone : ∀ a, ¬ hi.Holds id a := fun a ha => h ⟨a, ha⟩
    exact Or.inr ⟨hnone, hok.lookup_of_absent hnone⟩

end HashidOk

end NetgameFormal
