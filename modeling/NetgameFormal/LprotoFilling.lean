import NetgameFormal.Lproto
import Mathlib.Data.List.Chain

/-!
# What packing fills into a message

`pack` visits the scalars of a message in the order of the sorted keys, and one
that is missing or of another type is replaced by its default. A table may be
reached more than once, and then a visit sees what an earlier one has filled in.
A message conforms when this makes no difference.
-/

set_option autoImplicit false

namespace NetgameFormal

open Function

/-- The value packed for a field with default `d`: the default unless the types agree. -/
def fill (d : Scalar) : LuaValue → Scalar
  | .scalar v => if v.type = d.type then v else d
  | _ => d

theorem fill_type (d : Scalar) (x : LuaValue) : (fill d x).type = d.type := by
  unfold fill
  split
  · split
    · assumption
    · rfl
  · rfl

theorem fill_of_type {d v : Scalar} (h : v.type = d.type) : fill d (.scalar v) = v := if_pos h

theorem Scalar.luaType_eq_iff {v d : Scalar} : v.luaType = d.luaType ↔ v.type = d.type := by
  cases v <;> cases d <;> simp [Scalar.luaType, Scalar.type]

theorem eq_fill_of_luaType {d : Scalar} {x : LuaValue} (h : x.luaType = d.luaType) :
    x = .scalar (fill d x) := by
  cases x with
  | scalar v =>
    rw [fill_of_type (Scalar.luaType_eq_iff.mp h)]
  | nil => cases d <;> cases h
  | list vs => cases d <;> cases h
  | other => cases d <;> cases h

/-! ## Visits -/

/-- A scalar that is packed: the key of a table, with the default that its protocol declares. -/
structure Visit where
  table : Nat
  key : LuaString
  default : Scalar
  deriving DecidableEq

/-- The value that is packed when the tables are as in `heap`. -/
def Visit.value (heap : Heap) (x : Visit) : Scalar := fill x.default (heap x.table x.key)

def Heap.visit (heap : Heap) (x : Visit) : Heap := heap.set x.table x.key (.scalar (x.value heap))

def Heap.visitAll (heap : Heap) (xs : List Visit) : Heap := xs.foldl Heap.visit heap

/-- The defaults with which the key `k` of the table `t` is visited, in order. -/
def defaultsAt (xs : List Visit) (t : Nat) (k : LuaString) : List Scalar :=
  (xs.filter fun x => x.table = t ∧ x.key = k).map Visit.default

/-- Each visit finds a value that it takes for the one in `heap`. -/
def Agrees (heap : Heap) (xs : List Visit) : Prop :=
  ∀ front x back, xs = front ++ x :: back → x.value (heap.visitAll front) = x.value heap

section Visiting

variable {heap : Heap} {xs ys : List Visit} {x : Visit} {t : Nat} {k : LuaString}

@[simp] theorem visitAll_nil (heap : Heap) : heap.visitAll [] = heap := rfl

theorem visitAll_snoc (heap : Heap) (xs : List Visit) (x : Visit) :
    heap.visitAll (xs ++ [x]) = (heap.visitAll xs).visit x := List.foldl_append

theorem visit_self : heap.visit x x.table x.key = .scalar (x.value heap) := by
  simp only [Heap.visit, Heap.set, update_self]

theorem visit_of_ne (h : ¬ (x.table = t ∧ x.key = k)) : heap.visit x t k = heap t k := by
  unfold Heap.visit Heap.set
  by_cases ht : t = x.table
  · subst ht
    have hk : k ≠ x.key := fun hk => h ⟨rfl, hk.symm⟩
    rw [update_self, update_of_ne hk]
  · rw [update_of_ne ht]

theorem defaultsAt_append : defaultsAt (xs ++ ys) t k = defaultsAt xs t k ++ defaultsAt ys t k := by
  rw [defaultsAt, List.filter_append, List.map_append]
  rfl

theorem defaultsAt_singleton :
    defaultsAt [x] t k = if x.table = t ∧ x.key = k then [x.default] else [] := by
  by_cases hx : x.table = t ∧ x.key = k
  · simp [defaultsAt, hx]
  · simp [defaultsAt, hx]

theorem mem_defaultsAt {d : Scalar} : d ∈ defaultsAt xs t k ↔ (⟨t, k, d⟩ : Visit) ∈ xs := by
  simp only [defaultsAt, List.mem_map, List.mem_filter, decide_eq_true_eq]
  constructor
  · rintro ⟨x, ⟨hx, rfl, rfl⟩, rfl⟩
    exact hx
  · exact fun hx => ⟨_, ⟨hx, rfl, rfl⟩, rfl⟩

/-- A visit with `d` does not change what a visit with `d'` makes of the value `y`. -/
def Harmless (y : LuaValue) (d d' : Scalar) : Prop := fill d' (.scalar (fill d y)) = fill d' y

instance (y : LuaValue) (d d' : Scalar) : Decidable (Harmless y d d') :=
  inferInstanceAs (Decidable (_ = _))

/-- After harmless visits a value is the one that the last of them has filled in. -/
theorem visitAll_apply (h : (defaultsAt xs t k).IsChain (Harmless (heap t k))) :
    heap.visitAll xs t k =
      (defaultsAt xs t k).getLast?.elim (heap t k) fun d => .scalar (fill d (heap t k)) := by
  induction xs using List.reverseRecOn with
  | nil => rfl
  | append_singleton xs x ih =>
    rw [defaultsAt_append, defaultsAt_singleton] at h ⊢
    rw [visitAll_snoc]
    by_cases hx : x.table = t ∧ x.key = k
    · obtain ⟨rfl, rfl⟩ := hx
      rw [if_pos ⟨rfl, rfl⟩] at h ⊢
      obtain ⟨hfront, -, hlast⟩ := List.isChain_append.mp h
      rw [visit_self, List.getLast?_concat, Option.elim_some, Visit.value, ih hfront]
      cases hds : (defaultsAt xs x.table x.key).getLast? with
      | none => rfl
      | some d => exact congrArg LuaValue.scalar (hlast d hds x.default rfl)
    · rw [if_neg hx, List.append_nil] at h ⊢
      rw [visit_of_ne hx, ih h]

theorem visitAll_unvisited (h : defaultsAt xs t k = []) : heap.visitAll xs t k = heap t k := by
  have hchain : (defaultsAt xs t k).IsChain (Harmless (heap t k)) := by
    rw [h]
    exact .nil
  rw [visitAll_apply hchain, h]
  rfl

theorem agrees_of_chains (h : ∀ t k, (defaultsAt xs t k).IsChain (Harmless (heap t k))) :
    Agrees heap xs := by
  rintro front x back rfl
  have hchain := h x.table x.key
  have hone : defaultsAt [x] x.table x.key = [x.default] := by simp [defaultsAt_singleton]
  rw [← List.singleton_append, ← List.append_assoc, defaultsAt_append, defaultsAt_append,
    hone] at hchain
  obtain ⟨hfront, -, hlast⟩ := List.isChain_append.mp hchain.left_of_append
  rw [Visit.value, visitAll_apply hfront]
  cases hds : (defaultsAt front x.table x.key).getLast? with
  | none => rfl
  | some d => exact hlast d hds x.default rfl

theorem Agrees.left (h : Agrees heap (xs ++ ys)) : Agrees heap xs := by
  rintro front x back rfl
  exact h front x (back ++ ys) (by simp)

theorem Agrees.value_eq (h : Agrees heap (xs ++ [x])) :
    x.value (heap.visitAll xs) = x.value heap := h xs x [] rfl

end Visiting

/-! ## The visits of a protocol -/

def recordVisit (rd : ProtRecord) (v : Nat) (k : LuaString) : List Visit :=
  match rd.fields.get k with
  | some d => [⟨v, k, d⟩]
  | none => []

def recordVisits (rd : ProtRecord) (v : Nat) : List Visit := rd.keysort.flatMap (recordVisit rd v)

def fieldVisits (heap : Heap) (prot : Prot) (p : Nat) (key : LuaString) : List Visit :=
  match prot.get key with
  | some (.scalar d) => [⟨p, key, d⟩]
  | some (.record rd) => (heap p key).records.flatMap (recordVisits rd)
  | _ => []

def bodyVisits (heap : Heap) (prot : Prot) (p : Nat) : List Visit :=
  prot.keysort.flatMap (fieldVisits heap prot p)

/-- A message that one protocol can be read off: its lists are sequences of tables, no visit sees
another value for what an earlier one has filled in, and none has filled in a value for a list when
this list is packed. -/
structure Conforms (fields : Table Field) (heap : Heap) (p : Nat) : Prop where
  lists : ∀ k r, fields.get k = some (.record r) → ∃ vs : List Nat, heap p k = .list (vs.map some)
  agree : ∀ t k, (defaultsAt (bodyVisits heap (initTable fields) p) t k).IsChain
    (Harmless (heap t k))
  kept : ∀ front k back r, (initTable fields).keysort = front ++ k :: back →
    fields.get k = some (.record r) →
    defaultsAt (front.flatMap (fieldVisits heap (initTable fields) p)) p k = []

section Conforming

variable {fields : Table Field} {heap : Heap} {p : Nat} {x : Visit}

/-- A scalar of the message `p` that its protocol declares, or one of a record in one of its
lists. -/
inductive Declared (fields : Table Field) (heap : Heap) (p : Nat) : Visit → Prop
  | own {k : LuaString} {d : Scalar} :
      fields.get k = some (.scalar d) → Declared fields heap p ⟨p, k, d⟩
  | item {key k : LuaString} {r : Table Scalar} {v : Nat} {d : Scalar} :
      fields.get key = some (.record r) → v ∈ (heap p key).records → r.get k = some d →
      Declared fields heap p ⟨v, k, d⟩

theorem declared_of_mem {keys : List LuaString}
    (hx : x ∈ keys.flatMap (fieldVisits heap (initTable fields) p)) : Declared fields heap p x := by
  obtain ⟨key, -, hx⟩ := List.mem_flatMap.mp hx
  unfold fieldVisits Prot.get at hx
  by_cases hkey : key = KEYSORT
  · simp [hkey] at hx
  · have hfields : (initTable fields).fields = fields := rfl
    rw [if_neg hkey, hfields] at hx
    cases hfield : fields.get key with
    | none => simp [hfield] at hx
    | some field =>
      cases field with
      | scalar d =>
        obtain rfl : x = ⟨p, key, d⟩ := by simpa [hfield] using hx
        exact .own hfield
      | record r =>
        simp only [hfield, Option.map_some, List.mem_flatMap, recordVisits] at hx
        obtain ⟨v, hv, k, -, hx⟩ := hx
        unfold recordVisit initRecord at hx
        cases hget : r.get k with
        | none => simp [hget] at hx
        | some d =>
          obtain rfl : x = ⟨v, k, d⟩ := by simpa [hget] using hx
          exact .item hfield hv hget

/-- Where every record is in one list only and none is the message itself, a scalar has one default. -/
theorem Declared.default_eq
    (hown : ∀ k r, fields.get k = some (.record r) → p ∉ (heap p k).records)
    (hapart : ∀ k k' r r' v, fields.get k = some (.record r) → fields.get k' = some (.record r') →
      v ∈ (heap p k).records → v ∈ (heap p k').records → k = k') {t : Nat} {k : LuaString}
    {d d' : Scalar} (hd : Declared fields heap p ⟨t, k, d⟩) (hd' : Declared fields heap p ⟨t, k, d'⟩) :
    d = d' := by
  cases hd with
  | own hfield =>
    cases hd' with
    | own hfield' =>
      rw [hfield] at hfield'
      cases hfield'
      rfl
    | item hfield' hmem' => exact absurd hmem' (hown _ _ hfield')
  | @item key _ r _ _ hfield hmem hget =>
    cases hd' with
    | own => exact absurd hmem (hown _ _ hfield)
    | @item key' _ r' _ _ hfield' hmem' hget' =>
      obtain rfl := hapart key key' r r' t hfield hfield' hmem hmem'
      rw [hfield] at hfield'
      cases hfield'
      rw [hget] at hget'
      cases hget'
      rfl

/-- A message whose tables are all used once conforms. -/
theorem Conforms.of_owned
    (hlists : ∀ k r, fields.get k = some (.record r) →
      ∃ vs : List Nat, heap p k = .list (vs.map some) ∧ p ∉ vs)
    (hapart : ∀ k k' r r' v, fields.get k = some (.record r) → fields.get k' = some (.record r') →
      v ∈ (heap p k).records → v ∈ (heap p k').records → k = k') : Conforms fields heap p := by
  have hown : ∀ k r, fields.get k = some (.record r) → p ∉ (heap p k).records := by
    intro k r hfield
    obtain ⟨vs, hlist, habsent⟩ := hlists k r hfield
    simpa [hlist, LuaValue.records] using habsent
  refine ⟨?_, ?_, ?_⟩
  · intro k r hfield
    obtain ⟨vs, hlist, -⟩ := hlists k r hfield
    exact ⟨vs, hlist⟩
  · intro t k
    apply List.Pairwise.isChain
    apply List.pairwise_of_forall_mem_list
    intro d hd d' hd'
    have hdeclared := declared_of_mem (mem_defaultsAt.mp hd)
    obtain rfl := hdeclared.default_eq hown hapart (declared_of_mem (mem_defaultsAt.mp hd'))
    exact fill_of_type (fill_type d _)
  · intro front k back r _ hfield
    apply List.eq_nil_iff_forall_not_mem.mpr
    intro d hd
    cases declared_of_mem (mem_defaultsAt.mp hd) with
    | own hfield' =>
      rw [hfield] at hfield'
      cases hfield'
    | item hfield' hmem' => exact absurd hmem' (hown _ _ hfield')

end Conforming

end NetgameFormal
