import NetgameFormal.PingReply
import Mathlib.Tactic.FinCases

/-!
# initprot applied again

`initprot` writes its lists into the tables it goes through, under an ordinary
key. Here these tables are in a heap, as the first call leaves them, so that a
second call can be told what it does to the lists of the first one. The test
that should leave `_keysort` out of the list of a protocol reads the global
`kk`, which is nil.
-/

set_option autoImplicit false

namespace NetgameFormal

/-! ## Tables -/

inductive LuaKey where
  | int (n : Int)
  | str (s : LuaString)
  deriving DecidableEq

def LuaKey.isInt : LuaKey → Bool
  | .int _ => true
  | .str _ => false

/-- A value of a dictionary: a table is known by its address. -/
inductive LuaField where
  | scalar (v : Scalar)
  | table (t : Nat)
  deriving DecidableEq

/-- A key as a value of a list. -/
def LuaKey.value : LuaKey → LuaField
  | .int n => .scalar (.int n)
  | .str s => .scalar (.str s)

structure LuaTable where
  entries : List (LuaKey × LuaField)
  distinct : (entries.map Prod.fst).Nodup

namespace LuaTable

def keys (t : LuaTable) : List LuaKey := t.entries.map Prod.fst

def get (t : LuaTable) (k : LuaKey) : Option LuaField := t.entries.lookup k

/-- `t[k] = v` -/
def set (t : LuaTable) (k : LuaKey) (v : LuaField) : LuaTable :=
  ⟨(k, v) :: t.entries.filter fun e => e.1 ≠ k, by
    rw [List.map_cons, List.nodup_cons]
    constructor
    · intro hmem
      obtain ⟨e, he, hk⟩ := List.mem_map.mp hmem
      exact of_decide_eq_true (List.mem_filter.mp he).2 hk
    · exact t.distinct.sublist (List.filter_sublist.map _)⟩

/-- A table after `table.insert` of every key of a list. -/
def ofList (ks : List LuaKey) : LuaTable :=
  ⟨ks.zipIdx.map fun e => (.int (e.2 + 1), e.1.value), by
    have hkeys : (ks.zipIdx.map fun e => ((.int (e.2 + 1), e.1.value) : LuaKey × LuaField)).map
        Prod.fst = (ks.zipIdx.map Prod.snd).map fun (i : Nat) => LuaKey.int (i + 1) := by
      rw [List.map_map, List.map_map]
      rfl
    have hnodup : (List.range' 0 ks.length).Nodup := List.nodup_range'
    rw [hkeys, List.zipIdx_map_snd]
    refine hnodup.map ?_
    intro i j hij
    injection hij with hij
    omega⟩

/-- The values that `ipairs` goes through. -/
def ipairs (t : LuaTable) : List LuaField :=
  ((List.range t.entries.length).map fun (i : Nat) => t.get (.int (i + 1))).takeWhile Option.isSome
    |>.filterMap id

/-- The order of `table.sort`; it raises on a string and a number, so no order is told for them. -/
def keyLe : LuaKey → LuaKey → Bool
  | .int a, .int b => decide (a ≤ b)
  | .str s, .str t => stringLe s t
  | .int _, .str _ => true
  | .str _, .int _ => false

def pairsbykey (t : LuaTable) : Except LuaStop (List LuaKey) :=
  if t.keys.all LuaKey.isInt || t.keys.all fun k => !k.isInt then
    .ok (t.keys.insertionSort fun k k' => keyLe k k' = true)
  else .error .raises

end LuaTable

/-! ## The function -/

/-- The tables of the script; those from `fresh` on are not allocated. -/
structure LuaHeap where
  tables : Nat → LuaTable
  fresh : Nat

namespace LuaHeap

/-- `t._keysort = list`, the table `list` being new. -/
def setKeysort (h : LuaHeap) (t : Nat) (list : List LuaKey) : LuaHeap :=
  let tables := Function.update h.tables h.fresh (.ofList list)
  ⟨Function.update tables t ((tables t).set (.str KEYSORT) (.table h.fresh)), h.fresh + 1⟩

/-- The inner loop of `initprot`, on the keys of a table `v`, and `v._keysort = __keysort`. -/
def initRecord (h : LuaHeap) (v : Nat) : Except LuaStop LuaHeap := do
  let keys ← (h.tables v).pairsbykey
  .ok (h.setKeysort v (keys.filter fun kk => kk ≠ .str KEYSORT))

/-- The outer loop of `initprot`, on the keys of a protocol. -/
def initFields (p : Nat) : List LuaKey → LuaHeap → Except LuaStop LuaHeap
  | [], h => .ok h
  | k :: ks, h =>
    match (h.tables p).get k with
    | some (.table v) => do
      let h ← h.initRecord v
      initFields p ks h
    | _ => initFields p ks h

/-- The body of the loop over the protocols: nil differs from `_keysort`, so every key is
inserted. -/
def initProtocol (h : LuaHeap) (p : Nat) : Except LuaStop LuaHeap := do
  let keys ← (h.tables p).pairsbykey
  let h ← initFields p keys h
  .ok (h.setKeysort p keys)

/-- `lproto.initprot`, on the protocols in the order of `pairs`. -/
def initprot (h : LuaHeap) (protDict : List Nat) : Except LuaStop LuaHeap :=
  protDict.foldlM initProtocol h

/-- What `ipairs(t._keysort)` goes through. -/
def keysort (h : LuaHeap) (t : Nat) : Option (List LuaField) :=
  match (h.tables t).get (.str KEYSORT) with
  | some (.table list) => some (h.tables list).ipairs
  | _ => none

/-- The tables of a dictionary: its protocols and their lists. -/
def InDict (h : LuaHeap) (protDict : List Nat) (t : Nat) : Prop :=
  t ∈ protDict ∨ ∃ p ∈ protDict, ∃ k, k ≠ .str KEYSORT ∧ (h.tables p).get k = some (.table t)

/-- A call of `initprot` that changes no list, and lists `_keysort` nowhere. -/
def Idempotent (h : LuaHeap) (protDict : List Nat) : Prop :=
  ∃ h', h.initprot protDict = .ok h' ∧ ∀ t, h.InDict protDict t →
    h'.keysort t = h.keysort t ∧
    ∀ names, h'.keysort t = some names → LuaField.scalar (.str KEYSORT) ∉ names

end LuaHeap

/-- A dictionary as a script writes it. -/
structure Dictionary (h : LuaHeap) (protDict : List Nat) : Prop where
  allocated : ∀ p ∈ protDict, p < h.fresh
  fields : ∀ p ∈ protDict, ∀ k v, (h.tables p).get k = some v →
    (∃ s, k = .str s ∧ s ≠ KEYSORT) ∧ ∀ t, v = .table t → t < h.fresh ∧
      ∀ kk vv, (h.tables t).get kk = some vv →
        (∃ s, kk = .str s ∧ s ≠ KEYSORT) ∧ ∃ d, vv = .scalar d

/-! ## Keys and lists -/

namespace LuaTable

variable {t : LuaTable} {k k' : LuaKey} {v : LuaField}

theorem get_isSome_iff : (t.get k).isSome ↔ k ∈ t.keys :=
  AssocLists.isSome_lookup_iff

theorem mem_of_get (h : t.get k = some v) : (k, v) ∈ t.entries :=
  AssocLists.mem_of_lookup h

theorem get_set_self : (t.set k v).get k = some v := by
  rw [get, set, List.lookup_cons, beq_self_eq_true]

theorem get_set_of_ne (hne : k' ≠ k) : (t.set k v).get k' = t.get k' := by
  rw [get, get, set, List.lookup_cons, beq_false_of_ne hne]
  refine AssocLists.lookup_filter_of_ne ?_ hne
  intro e _ he
  simpa using he

theorem mem_keys_set : k ∈ (t.set k' v).keys ↔ k = k' ∨ k ∈ t.keys := by
  simp only [keys, set, List.map_cons, List.mem_cons, List.mem_map, List.mem_filter,
    decide_eq_true_eq]
  constructor
  · intro h
    cases h with
    | inl h => exact .inl h
    | inr h =>
      obtain ⟨e, he, hk⟩ := h
      exact .inr ⟨e, he.1, hk⟩
  · intro h
    by_cases hk : k = k'
    · exact .inl hk
    · obtain ⟨e, he, rfl⟩ := h.resolve_left hk
      exact .inr ⟨e, ⟨he, hk⟩, rfl⟩

theorem lookup_ofList (ks : List LuaKey) (n i : Nat) :
    ((ks.zipIdx n).map fun e => ((.int (e.2 + 1), e.1.value) : LuaKey × LuaField)).lookup
      (.int ((n + i : Nat) + 1)) = (ks[i]?).map LuaKey.value := by
  induction ks generalizing n i with
  | nil => simp
  | cons k ks ih =>
    rw [List.zipIdx_cons, List.map_cons, List.lookup_cons]
    cases i with
    | zero => simp
    | succ i =>
      have hne : (LuaKey.int ((n + (i + 1) : Nat) + 1) == LuaKey.int (n + 1)) = false := by
        rw [beq_eq_false_iff_ne]
        intro h
        injection h with h
        omega
      rw [hne]
      have hshift : n + (i + 1) = n + 1 + i := by omega
      rw [hshift]
      exact ih (n + 1) i

theorem get_ofList (ks : List LuaKey) (i : Nat) :
    (ofList ks).get (.int (i + 1)) = (ks[i]?).map LuaKey.value := by
  have h := lookup_ofList ks 0 i
  rw [Nat.zero_add] at h
  exact h

theorem ipairs_ofList (ks : List LuaKey) : (ofList ks).ipairs = ks.map LuaKey.value := by
  have hlength : (ofList ks).entries.length = ks.length := by
    simp [ofList]
  have hget : ((List.range ks.length).map fun (i : Nat) => (ofList ks).get (.int (i + 1)))
      = ks.map fun k => some k.value := by
    apply List.ext_getElem
    · simp
    · intro i h₁ h₂
      have hi : i < ks.length := by simpa using h₂
      simp [get_ofList, List.getElem?_eq_getElem hi]
  rw [ipairs, hlength, hget]
  clear hlength hget
  induction ks with
  | nil => rfl
  | cons k ks ih =>
    rw [List.map_cons, List.takeWhile_cons_of_pos (Option.isSome_some), List.filterMap_cons, ih]
    rfl

theorem mem_of_pairsbykey {list : List LuaKey} (h : t.pairsbykey = .ok list) :
    k ∈ list ↔ k ∈ t.keys := by
  unfold pairsbykey at h
  split at h
  · cases h
    exact List.mem_insertionSort _
  · cases h

theorem pairsbykey_nodup {list : List LuaKey} (h : t.pairsbykey = .ok list) : list.Nodup := by
  unfold pairsbykey at h
  split at h
  · cases h
    exact (List.perm_insertionSort _ _).nodup_iff.mpr t.distinct
  · cases h

end LuaTable

/-! ## Lists are written, keys never vanish -/

namespace LuaHeap

variable {h h' h'' : LuaHeap} {p t v : Nat} {protDict : List Nat}

theorem setKeysort_self {list : List LuaKey} : (h.setKeysort t list).tables t =
    (Function.update h.tables h.fresh (.ofList list) t).set (.str KEYSORT) (.table h.fresh) :=
  Function.update_self _ _ _

theorem setKeysort_of_ne {list : List LuaKey} (hne : t ≠ v) (ht : t < h.fresh) :
    (h.setKeysort v list).tables t = h.tables t := by
  rw [setKeysort]
  exact (Function.update_of_ne hne _ _).trans (Function.update_of_ne (Nat.ne_of_lt ht) _ _)

theorem keysort_setKeysort {list : List LuaKey} (ht : t < h.fresh) :
    (h.setKeysort t list).keysort t = some (list.map LuaKey.value) := by
  simp only [keysort, setKeysort, Function.update_self, LuaTable.get_set_self]
  rw [Function.update_of_ne (Nat.ne_of_gt ht), Function.update_self, LuaTable.ipairs_ofList]

theorem keysort_mem_setKeysort {list : List LuaKey} :
    .str KEYSORT ∈ ((h.setKeysort t list).tables t).keys := by
  rw [setKeysort_self, LuaTable.mem_keys_set]
  exact .inl rfl

/-- A later heap, in which the tables have their keys still. -/
structure Extends (h h' : LuaHeap) : Prop where
  fresh_le : h.fresh ≤ h'.fresh
  keys : ∀ t k, t < h.fresh → k ∈ (h.tables t).keys → k ∈ (h'.tables t).keys

theorem Extends.refl : Extends h h := ⟨Nat.le_refl _, fun _ _ _ hk => hk⟩

theorem Extends.trans (hfirst : Extends h h') (hsecond : Extends h' h'') : Extends h h'' where
  fresh_le := Nat.le_trans hfirst.fresh_le hsecond.fresh_le
  keys t k ht hk :=
    hsecond.keys t k (Nat.lt_of_lt_of_le ht hfirst.fresh_le) (hfirst.keys t k ht hk)

theorem extends_setKeysort (list : List LuaKey) : Extends h (h.setKeysort v list) where
  fresh_le := Nat.le_succ _
  keys t k ht hk := by
    by_cases htv : t = v
    · subst htv
      rw [setKeysort_self, LuaTable.mem_keys_set, Function.update_of_ne (Nat.ne_of_lt ht)]
      exact .inr hk
    · rw [setKeysort_of_ne htv ht]
      exact hk

theorem initRecord_extends (hinit : h.initRecord v = .ok h') : Extends h h' := by
  obtain ⟨keys, -, hset⟩ := bind_eq_ok hinit
  cases hset
  exact extends_setKeysort _

theorem initFields_extends {keys : List LuaKey} (hinit : initFields p keys h = .ok h') :
    Extends h h' := by
  induction keys generalizing h with
  | nil =>
    cases hinit
    exact .refl
  | cons k ks ih =>
    unfold initFields at hinit
    split at hinit
    · obtain ⟨g, hrecord, hrest⟩ := bind_eq_ok hinit
      exact (initRecord_extends hrecord).trans (ih hrest)
    · exact ih hinit

/-- One round of the loop: the list of the protocol has every key that it had before, and the
protocol has the key `_keysort` after it. -/
theorem initProtocol_spec (hp : p < h.fresh) (hinit : h.initProtocol p = .ok h') :
    Extends h h' ∧ .str KEYSORT ∈ (h'.tables p).keys ∧
      ∃ list, (h.tables p).pairsbykey = .ok list ∧
        h'.keysort p = some (list.map LuaKey.value) := by
  obtain ⟨list, hlist, hinit⟩ := bind_eq_ok hinit
  obtain ⟨g, hfields, hset⟩ := bind_eq_ok hinit
  cases hset
  have hextends := initFields_extends hfields
  refine ⟨hextends.trans (extends_setKeysort _), keysort_mem_setKeysort, list, hlist, ?_⟩
  exact keysort_setKeysort (Nat.lt_of_lt_of_le hp hextends.fresh_le)

theorem initprot_extends (halloc : ∀ p ∈ protDict, p < h.fresh)
    (hinit : h.initprot protDict = .ok h') : Extends h h' := by
  induction protDict generalizing h with
  | nil =>
    cases hinit
    exact .refl
  | cons p ps ih =>
    rw [initprot, List.foldlM_cons] at hinit
    obtain ⟨g, hfirst, hrest⟩ := bind_eq_ok hinit
    have hextends := (initProtocol_spec (halloc p List.mem_cons_self) hfirst).1
    apply hextends.trans
    apply ih _ hrest
    intro q hq
    exact Nat.lt_of_lt_of_le (halloc q (List.mem_cons_of_mem _ hq)) hextends.fresh_le

theorem keysort_mem_of_initprot (halloc : ∀ p ∈ protDict, p < h.fresh)
    (hinit : h.initprot protDict = .ok h') (hp : p ∈ protDict) :
    .str KEYSORT ∈ (h'.tables p).keys := by
  induction protDict generalizing h with
  | nil => cases hp
  | cons q qs ih =>
    rw [initprot, List.foldlM_cons] at hinit
    obtain ⟨g, hfirst, hrest⟩ := bind_eq_ok hinit
    have hq := halloc q List.mem_cons_self
    obtain ⟨hextends, hkey, -⟩ := initProtocol_spec hq hfirst
    have halloc' : ∀ p ∈ qs, p < g.fresh := by
      intro p hp
      exact Nat.lt_of_lt_of_le (halloc p (List.mem_cons_of_mem _ hp)) hextends.fresh_le
    cases hp with
    | head =>
      have hq' := Nat.lt_of_lt_of_le hq hextends.fresh_le
      exact (initprot_extends halloc' hrest).keys _ _ hq' hkey
    | tail _ hp => exact ih halloc' hrest hp

theorem keysort_of_initprot_append (halloc : ∀ q ∈ protDict ++ [p], q < h.fresh)
    (hkey : .str KEYSORT ∈ (h.tables p).keys)
    (hinit : h.initprot (protDict ++ [p]) = .ok h') :
    ∃ names, h'.keysort p = some names ∧ LuaField.scalar (.str KEYSORT) ∈ names := by
  rw [initprot, List.foldlM_append] at hinit
  obtain ⟨g, hfirst, hlast⟩ := bind_eq_ok hinit
  rw [List.foldlM_cons] at hlast
  obtain ⟨g', hlast, hg'⟩ := bind_eq_ok hlast
  cases hg'
  have hp : p < h.fresh := halloc p (List.mem_append_right _ List.mem_cons_self)
  have hextends : Extends h g :=
    initprot_extends (fun q hq => halloc q (List.mem_append_left _ hq)) hfirst
  obtain ⟨-, -, list, hlist, hkeysort⟩ :=
    initProtocol_spec (Nat.lt_of_lt_of_le hp hextends.fresh_le) hlast
  refine ⟨_, hkeysort, List.mem_map.mpr ⟨.str KEYSORT, ?_, rfl⟩⟩
  exact (LuaTable.mem_of_pairsbykey hlist).mpr (hextends.keys p _ hp hkey)

/-! ## The first call raises no error -/

/-- A heap that `initprot` has reached from `h₀`: only `_keysort` is written, and the lists it
names are arrays of their own, but for the tables in `marked`, whose list has got a `_keysort`. -/
structure Ready (h₀ : LuaHeap) (protDict : List Nat) (marked : Nat → Prop) (h : LuaHeap) :
    Prop where
  fresh_le : h₀.fresh ≤ h.fresh
  fields : ∀ t, h₀.InDict protDict t → ∀ k, k ≠ .str KEYSORT →
    (h.tables t).get k = (h₀.tables t).get k
  lists : ∀ t, h₀.InDict protDict t → ∀ v, (h.tables t).get (.str KEYSORT) = some v →
    ∃ a, v = .table a ∧ h₀.fresh ≤ a ∧ a < h.fresh ∧
      (¬marked t → ∀ k ∈ (h.tables a).keys, k.isInt = true)
  apart : ∀ t t' a, h₀.InDict protDict t → h₀.InDict protDict t' →
    (h.tables t).get (.str KEYSORT) = some (.table a) →
    (h.tables t').get (.str KEYSORT) = some (.table a) → t = t'

section Ready

variable {h₀ : LuaHeap} {marked marked' : Nat → Prop}

theorem InDict.lt (hdict : Dictionary h₀ protDict) (ht : h₀.InDict protDict t) : t < h₀.fresh := by
  cases ht with
  | inl ht => exact hdict.allocated t ht
  | inr ht =>
    obtain ⟨p, hp, k, -, hget⟩ := ht
    exact ((hdict.fields p hp k _ hget).2 t rfl).1

theorem InDict.key (hdict : Dictionary h₀ protDict) (ht : h₀.InDict protDict t) {k : LuaKey}
    (hk : ((h₀.tables t).get k).isSome) : ∃ s, k = .str s ∧ s ≠ KEYSORT := by
  obtain ⟨v, hv⟩ := Option.isSome_iff_exists.mp hk
  cases ht with
  | inl ht => exact (hdict.fields t ht k v hv).1
  | inr ht =>
    obtain ⟨p, hp, k', -, hget⟩ := ht
    exact (((hdict.fields p hp k' _ hget).2 t rfl).2 k v hv).1

theorem ready_self (hdict : Dictionary h protDict) : Ready h protDict (fun _ => False) h := by
  have hnone : ∀ t, h.InDict protDict t → (h.tables t).get (.str KEYSORT) = none := by
    intro t ht
    rw [← Option.not_isSome_iff_eq_none]
    intro hsome
    obtain ⟨s, hs, hne⟩ := ht.key hdict hsome
    injection hs with hs
    exact hne hs.symm
  refine ⟨Nat.le_refl _, fun _ _ _ _ => rfl, ?_, ?_⟩
  · intro t ht v hv
    rw [hnone t ht] at hv
    cases hv
  · intro t t' a ht _ hv
    rw [hnone t ht] at hv
    cases hv

theorem Ready.pairsbykey (hready : Ready h₀ protDict marked h) (hdict : Dictionary h₀ protDict)
    (ht : h₀.InDict protDict t) : ∃ keys, (h.tables t).pairsbykey = .ok keys := by
  have hstr : ((h.tables t).keys.all fun k => !k.isInt) = true := by
    rw [List.all_eq_true]
    intro k hk
    by_cases hkeysort : k = .str KEYSORT
    · rw [hkeysort]
      rfl
    · have hsome := LuaTable.get_isSome_iff.mpr hk
      rw [hready.fields t ht k hkeysort] at hsome
      obtain ⟨s, rfl, -⟩ := ht.key hdict hsome
      rfl
  rw [LuaTable.pairsbykey, hstr, Bool.or_true]
  exact ⟨_, rfl⟩

theorem ofList_keys {list : List LuaKey} {k : LuaKey} (hk : k ∈ (LuaTable.ofList list).keys) :
    k.isInt = true := by
  obtain ⟨e, he, rfl⟩ := List.mem_map.mp hk
  obtain ⟨e', -, rfl⟩ := List.mem_map.mp he
  rfl

theorem Ready.setKeysort (hready : Ready h₀ protDict marked h) (hdict : Dictionary h₀ protDict)
    (hv : h₀.InDict protDict v) (list : List LuaKey) :
    Ready h₀ protDict (fun t => marked t ∧ t ≠ v) (h.setKeysort v list) := by
  have hlt : ∀ t, h₀.InDict protDict t → t < h.fresh := fun t ht =>
    Nat.lt_of_lt_of_le (ht.lt hdict) hready.fresh_le
  have hself : ((h.setKeysort v list).tables v).get (.str KEYSORT) = some (.table h.fresh) := by
    rw [setKeysort_self, LuaTable.get_set_self]
  have hother : ∀ t, h₀.InDict protDict t → t ≠ v →
      (h.setKeysort v list).tables t = h.tables t := fun t ht hne =>
    setKeysort_of_ne hne (hlt t ht)
  refine ⟨Nat.le_succ_of_le hready.fresh_le, ?_, ?_, ?_⟩
  · intro t ht k hk
    by_cases htv : t = v
    · subst htv
      rw [setKeysort_self, LuaTable.get_set_of_ne hk, Function.update_of_ne (Nat.ne_of_lt (hlt t ht))]
      exact hready.fields t ht k hk
    · rw [hother t ht htv]
      exact hready.fields t ht k hk
  · intro t ht value hvalue
    by_cases htv : t = v
    · subst htv
      rw [hself] at hvalue
      cases hvalue
      refine ⟨h.fresh, rfl, hready.fresh_le, Nat.lt_succ_self _, ?_⟩
      intro _ k hk
      have hlist : (h.setKeysort t list).tables h.fresh = .ofList list :=
        (Function.update_of_ne (Nat.ne_of_gt (hlt t ht)) _ _).trans (Function.update_self _ _ _)
      rw [hlist] at hk
      exact ofList_keys hk
    · rw [hother t ht htv] at hvalue
      obtain ⟨a, hva, hle, hlt', hints⟩ := hready.lists t ht value hvalue
      refine ⟨a, hva, hle, Nat.lt_succ_of_lt hlt', ?_⟩
      intro hmarked k hk
      have hav : a ≠ v := Nat.ne_of_gt (Nat.lt_of_lt_of_le (hv.lt hdict) hle)
      rw [setKeysort_of_ne hav hlt'] at hk
      exact hints (fun hm => hmarked ⟨hm, htv⟩) k hk
  · intro t t' a ht ht' ha ha'
    have hold : ∀ u, h₀.InDict protDict u → u ≠ v →
        ((h.setKeysort v list).tables u).get (.str KEYSORT) = some (.table a) → a < h.fresh := by
      intro u hu hne hget
      rw [hother u hu hne] at hget
      obtain ⟨b, hb, -, hlt', -⟩ := hready.lists u hu _ hget
      cases hb
      exact hlt'
    by_cases htv : t = v
    · by_cases htv' : t' = v
      · rw [htv, htv']
      · rw [htv, hself] at ha
        cases ha
        exact absurd (hold t' ht' htv' ha') (Nat.lt_irrefl _)
    · by_cases htv' : t' = v
      · rw [htv', hself] at ha'
        cases ha'
        exact absurd (hold t ht htv ha) (Nat.lt_irrefl _)
      · rw [hother t ht htv] at ha
        rw [hother t' ht' htv'] at ha'
        exact hready.apart t t' a ht ht' ha ha'

theorem Ready.setKeysort_list (hready : Ready h₀ protDict marked h)
    (hdict : Dictionary h₀ protDict) (hp : h₀.InDict protDict p) {a : Nat}
    (ha : (h.tables p).get (.str KEYSORT) = some (.table a)) (list : List LuaKey) :
    Ready h₀ protDict (fun t => marked t ∨ t = p) (h.setKeysort a list) := by
  obtain ⟨b, hb, hle, -, -⟩ := hready.lists p hp _ ha
  cases hb
  have hold : ∀ t, h₀.InDict protDict t → (h.setKeysort a list).tables t = h.tables t := by
    intro t ht
    apply setKeysort_of_ne
    · exact Nat.ne_of_lt (Nat.lt_of_lt_of_le (ht.lt hdict) hle)
    · exact Nat.lt_of_lt_of_le (ht.lt hdict) hready.fresh_le
  refine ⟨Nat.le_succ_of_le hready.fresh_le, ?_, ?_, ?_⟩
  · intro t ht k hk
    rw [hold t ht]
    exact hready.fields t ht k hk
  · intro t ht value hvalue
    rw [hold t ht] at hvalue
    obtain ⟨b, rfl, hle', hlt', hints⟩ := hready.lists t ht value hvalue
    refine ⟨b, rfl, hle', Nat.lt_succ_of_lt hlt', ?_⟩
    intro hmarked k hk
    have hba : b ≠ a := by
      rintro rfl
      exact hmarked (.inr (hready.apart t p b ht hp hvalue ha))
    rw [setKeysort_of_ne hba hlt'] at hk
    exact hints (fun hm => hmarked (.inl hm)) k hk
  · intro t t' b ht ht' hb hb'
    rw [hold t ht] at hb
    rw [hold t' ht'] at hb'
    exact hready.apart t t' b ht ht' hb hb'

theorem Ready.mono (hready : Ready h₀ protDict marked h) (hle : ∀ t, marked t → marked' t) :
    Ready h₀ protDict marked' h where
  fresh_le := hready.fresh_le
  fields := hready.fields
  lists t ht v hv := by
    obtain ⟨a, hva, hle', hlt, hints⟩ := hready.lists t ht v hv
    exact ⟨a, hva, hle', hlt, fun hmarked => hints fun hm => hmarked (hle t hm)⟩
  apart := hready.apart

/-- The loop over the keys of a protocol: the key `_keysort` comes up once, while the list it
names is still an array. -/
theorem Ready.initFields (hdict : Dictionary h₀ protDict) (hp : p ∈ protDict) {keys : List LuaKey}
    (hnodup : keys.Nodup) (hready : Ready h₀ protDict marked h)
    (hmarked : ∀ t, marked t → t = p) (hkeysort : .str KEYSORT ∈ keys → ¬marked p) :
    ∃ h', LuaHeap.initFields p keys h = .ok h' ∧ Ready h₀ protDict (fun t => t = p) h' := by
  induction keys generalizing h marked with
  | nil => exact ⟨h, rfl, hready.mono hmarked⟩
  | cons k ks ih =>
    obtain ⟨hk, hks⟩ := List.nodup_cons.mp hnodup
    unfold LuaHeap.initFields
    split
    case h_2 => exact ih hks hready hmarked fun hmem => hkeysort (List.mem_cons_of_mem _ hmem)
    case h_1 v hget =>
      by_cases hkey : k = .str KEYSORT
      · subst hkey
        obtain ⟨a, ha, -, -, hints⟩ := hready.lists p (.inl hp) _ hget
        cases ha
        have hall : (h.tables v).keys.all LuaKey.isInt = true :=
          List.all_eq_true.mpr (hints (hkeysort List.mem_cons_self))
        have hready' := hready.setKeysort_list hdict (.inl hp) hget
        rw [initRecord, LuaTable.pairsbykey, hall, Bool.true_or, if_pos rfl]
        apply ih hks (hready' _)
        · intro t ht
          exact ht.elim (hmarked t) id
        · intro hmem
          exact absurd hmem hk
      · have hv : h₀.InDict protDict v := by
          rw [hready.fields p (.inl hp) k hkey] at hget
          exact .inr ⟨p, hp, k, hkey, hget⟩
        obtain ⟨list, hlist⟩ := hready.pairsbykey hdict hv
        rw [initRecord, hlist]
        apply ih hks (hready.setKeysort hdict hv _)
        · intro t ht
          exact hmarked t ht.1
        · intro hmem hm
          exact hkeysort (List.mem_cons_of_mem _ hmem) hm.1

theorem Ready.initProtocol (hdict : Dictionary h₀ protDict) (hp : p ∈ protDict)
    (hready : Ready h₀ protDict (fun _ => False) h) :
    ∃ h', h.initProtocol p = .ok h' ∧ Ready h₀ protDict (fun _ => False) h' := by
  obtain ⟨list, hlist⟩ := hready.pairsbykey hdict (.inl hp)
  obtain ⟨g, hfields, hg⟩ := Ready.initFields hdict hp (LuaTable.pairsbykey_nodup hlist) hready
    (fun _ hm => hm.elim) fun _ hm => hm
  refine ⟨g.setKeysort p list, ?_, ?_⟩
  · rw [LuaHeap.initProtocol, hlist]
    change (LuaHeap.initFields p list h >>= _) = _
    rw [hfields]
    rfl
  · exact (hg.setKeysort hdict (.inl hp) list).mono fun t ht => ht.2 ht.1

theorem Ready.initprot (hdict : Dictionary h₀ protDict) {prots : List Nat}
    (hprots : ∀ p ∈ prots, p ∈ protDict) (hready : Ready h₀ protDict (fun _ => False) h) :
    ∃ h', h.initprot prots = .ok h' := by
  induction prots generalizing h with
  | nil => exact ⟨h, rfl⟩
  | cons p ps ih =>
    obtain ⟨g, hg, hready'⟩ := Ready.initProtocol hdict (hprots p List.mem_cons_self) hready
    obtain ⟨h', hh'⟩ := ih (fun q hq => hprots q (List.mem_cons_of_mem _ hq)) hready'
    refine ⟨h', ?_⟩
    rw [LuaHeap.initprot, List.foldlM_cons, hg]
    exact hh'

end Ready

/-! ## The second call -/

theorem keysort_of_initprot_again (hdict : Dictionary h (protDict ++ [p]))
    (hinit : h.initprot (protDict ++ [p]) = .ok h')
    (hagain : h'.initprot (protDict ++ [p]) = .ok h'') :
    ∃ names, h''.keysort p = some names ∧ LuaField.scalar (.str KEYSORT) ∈ names := by
  have hextends := initprot_extends hdict.allocated hinit
  apply keysort_of_initprot_append _ _ hagain
  · intro q hq
    exact Nat.lt_of_lt_of_le (hdict.allocated q hq) hextends.fresh_le
  · apply keysort_mem_of_initprot hdict.allocated hinit
    exact List.mem_append_right _ List.mem_cons_self

/-- `initprot` raises no error on a dictionary, and called again it leaves the lists only when
there is no protocol. -/
theorem initprot_idempotent_iff (hdict : Dictionary h protDict) :
    ∃ h', h.initprot protDict = .ok h' ∧ (h'.Idempotent protDict ↔ protDict = []) := by
  obtain ⟨h', hinit⟩ := Ready.initprot hdict (fun _ hp => hp) (ready_self hdict)
  refine ⟨h', hinit, ?_, ?_⟩
  · rintro ⟨h'', hagain, hlists⟩
    cases List.eq_nil_or_concat' protDict with
    | inl hnil => exact hnil
    | inr hlast =>
      obtain ⟨ps, p, rfl⟩ := hlast
      have hp : p ∈ ps ++ [p] := List.mem_append_right _ List.mem_cons_self
      obtain ⟨names, hnames, hmem⟩ := keysort_of_initprot_again hdict hinit hagain
      exact absurd hmem ((hlists p (.inl hp)).2 names hnames)
  · rintro rfl
    refine ⟨h', rfl, ?_⟩
    intro t ht
    cases ht with
    | inl ht => cases ht
    | inr ht =>
      obtain ⟨p, hp, -⟩ := ht
      cases hp

/-- The dictionary of the two scripts: its protocols are the tables 0 and 1, the list is 2. -/
def server : LuaHeap where
  tables
    | 0 => ⟨[(.str (luaString "ping"), .scalar (.str (luaString "hello"))),
        (.str (luaString "ret"), .scalar (.int (-1)))], by decide⟩
    | 1 => ⟨[(.str (luaString "pong"), .scalar (.str (luaString "pong"))),
        (.str (luaString "list"), .table 2)], by decide⟩
    | 2 => ⟨[(.str (luaString "a"), .scalar (.int 1)),
        (.str (luaString "b"), .scalar (.str (luaString "hao")))], by decide⟩
    | _ => ⟨[], by decide⟩
  fresh := 3

theorem server_dictionary : Dictionary server [0, 1] where
  allocated := by decide
  fields p hp k v hget := by
    have hmem := LuaTable.mem_of_get hget
    fin_cases hp
    · fin_cases hmem
      · exact ⟨⟨_, rfl, by decide⟩, nofun⟩
      · exact ⟨⟨_, rfl, by decide⟩, nofun⟩
    · fin_cases hmem
      · exact ⟨⟨_, rfl, by decide⟩, nofun⟩
      · refine ⟨⟨_, rfl, by decide⟩, ?_⟩
        intro t ht
        cases ht
        refine ⟨by decide, ?_⟩
        intro kk vv hget'
        have hmem' := LuaTable.mem_of_get hget'
        fin_cases hmem'
        · exact ⟨⟨_, rfl, by decide⟩, _, rfl⟩
        · exact ⟨⟨_, rfl, by decide⟩, _, rfl⟩

theorem initprot_idempotent_server :
    ∃ h', server.initprot [0, 1] = .ok h' ∧ (h'.Idempotent [0, 1] ↔ [0, 1] = []) :=
  initprot_idempotent_iff server_dictionary

/-- The second call adds `_keysort` to the list of the first protocol. -/
theorem initprot_not_idempotent :
    ∃ h' h'', server.initprot [0, 1] = .ok h' ∧ h'.initprot [0, 1] = .ok h'' ∧
      h'.keysort 0 = some ([luaString "ping", luaString "ret"].map fun s => .scalar (.str s)) ∧
      h''.keysort 0 = some ([KEYSORT, luaString "ping", luaString "ret"].map
        fun s => .scalar (.str s)) ∧ ¬h'.Idempotent [0, 1] := by
  have hrun : (do
      let h' ← server.initprot [0, 1]
      let h'' ← h'.initprot [0, 1]
      Except.ok (h'.keysort 0, h''.keysort 0)) = (Except.ok
        (some ([luaString "ping", luaString "ret"].map fun s => .scalar (.str s)),
          some ([KEYSORT, luaString "ping", luaString "ret"].map fun s => .scalar (.str s))) :
        Except LuaStop _) := by
    decide +kernel
  obtain ⟨h', hinit, hrun⟩ := bind_eq_ok hrun
  obtain ⟨h'', hagain, hlists⟩ := bind_eq_ok hrun
  injection hlists with hlists
  injection hlists with hfirst hsecond
  refine ⟨h', h'', hinit, hagain, hfirst, hsecond, ?_⟩
  rintro ⟨g, hg, hidem⟩
  rw [hagain] at hg
  cases hg
  apply (hidem 0 (.inl List.mem_cons_self)).2 _ hsecond
  exact List.mem_map.mpr ⟨KEYSORT, List.mem_cons_self, rfl⟩

end LuaHeap

/-! ## Packing with a list that names itself -/

section Pack

variable {c : LprotoC} {st st' : PackState} {p : Nat}

theorem packWrite_heap {v : Scalar} {code : Int} (h : packWrite c st v code = .ok st') :
    st'.heap = st.heap := by
  unfold packWrite at h
  split at h
  split at h
  · cases h
  · cases h
    rfl

theorem heap_set_nil {heap : Heap} {t : Nat} {k : LuaString} {v : LuaValue} (hk : k ≠ KEYSORT)
    (hnil : heap p KEYSORT = .nil) : heap.set t k v p KEYSORT = .nil := by
  rw [Heap.set]
  by_cases hpt : p = t
  · subst hpt
    rw [Function.update_self, Function.update_of_ne hk.symm]
    exact hnil
  · rw [Function.update_of_ne hpt]
    exact hnil

theorem packScalar_nil {t : Nat} {k : LuaString} {d : Scalar} (hk : k ≠ KEYSORT)
    (hnil : st.heap p KEYSORT = .nil) (h : packScalar c st t k d = .ok st') :
    st'.heap p KEYSORT = .nil := by
  unfold packScalar at h
  simp only at h
  split at h
  · rw [packWrite_heap h]
    split
    · exact heap_set_nil hk hnil
    · exact hnil
  · cases h

theorem keysort_nil_kept (c : LprotoC) (p : Nat) :
    PackKeeps c (fun k => k ≠ KEYSORT) fun st => st.heap p KEYSORT = .nil where
  write hnil h := by
    rw [packWrite_heap h]
    exact hnil
  scalar hk hnil h := packScalar_nil hk hnil h

theorem get_record_keysort {prot : Prot} {key : LuaString} {rd : ProtRecord}
    (hget : prot.get key = some (.record rd)) : ∀ k ∈ rd.keysort, k ≠ KEYSORT := by
  intro k hk
  unfold Prot.get at hget
  split at hget
  · cases hget
  · obtain ⟨field, -, hfield⟩ := Option.map_eq_some_iff.mp hget
    cases field with
    | scalar d => cases hfield
    | record r =>
      cases hfield
      exact of_decide_eq_true (List.mem_filter.mp hk).2

/-- The keys before `_keysort` are packed; then the names of the list are taken for a record. -/
theorem packFields_keysort {prot : Prot} {keys : List LuaString} (hmem : KEYSORT ∈ keys)
    (hnil : st.heap p KEYSORT = .nil) : packFields c prot p keys st ≠ .ok st' := by
  induction keys generalizing st with
  | nil => cases hmem
  | cons key keys ih =>
    intro h
    by_cases hkey : key = KEYSORT
    · have hget : prot.get key = some (.keys prot.keysort) := by rw [Prot.get, if_pos hkey]
      rw [packFields, hget] at h
      simp only [hkey, hnil] at h
      cases h
    · have hmem' : KEYSORT ∈ keys := List.mem_of_ne_of_mem (fun he => hkey he.symm) hmem
      obtain ⟨mid, hmid, hrest⟩ :=
        (keysort_nil_kept c p).field hkey (fun _ hget => get_record_keysort hget) hnil h
      exact ih hmem' hmid hrest

/-- With `_keysort` in its list, a protocol packs no message that leaves this key out. -/
theorem pack_of_keysort_mem {protDict : Int → Option Prot} {protId : Int} {prot : Prot}
    (hprot : protDict protId = some prot) (hmem : KEYSORT ∈ prot.keysort) {heap : Heap}
    (hnil : heap p KEYSORT = .nil) (mem : Memory) (fd : Int) (frame : Nat × List Byte) :
    pack c protDict heap mem fd protId p ≠ .ok frame := by
  intro h
  unfold pack at h
  simp only [hprot] at h
  obtain ⟨st, hst, -⟩ := bind_eq_ok h
  exact packFields_keysort hmem hnil hst

/-- A protocol whose second initialisation came last packs no message without this key. -/
theorem pack_reinitialised {h h' h'' : LuaHeap} {prots : List Nat} {t : Nat}
    (hdict : Dictionary h (prots ++ [t])) (hinit : h.initprot (prots ++ [t]) = .ok h')
    (hagain : h'.initprot (prots ++ [t]) = .ok h'') {protDict : Int → Option Prot} {protId : Int}
    {prot : Prot} (hprot : protDict protId = some prot)
    (hkeysort : h''.keysort t = some (prot.keysort.map fun s => .scalar (.str s)))
    {heap : Heap} (hnil : heap p KEYSORT = .nil) (mem : Memory) (fd : Int)
    (frame : Nat × List Byte) : pack c protDict heap mem fd protId p ≠ .ok frame := by
  obtain ⟨names, hnames, hmem⟩ := LuaHeap.keysort_of_initprot_again hdict hinit hagain
  rw [hkeysort] at hnames
  cases hnames
  obtain ⟨s, hs, hname⟩ := List.mem_map.mp hmem
  cases hname
  exact pack_of_keysort_mem hprot hs hnil mem fd frame

end Pack

end NetgameFormal
