import NetgameFormal.HashidTable
import NetgameFormal.Runs

/-!
# The id table as a map from ids to slots

Every run of insertions, removals and lookups from `hashid_init` is compared
with the map of the slots that the insertions have returned. It starts as long
as the number of lists, which is found by doubling an int, does not overflow.
-/

set_option autoImplicit false

namespace NetgameFormal

/-! ## Runs -/

/-- A table, and the slots that were returned for the ids that are present. -/
structure HashidUse where
  table : Hashid
  slots : Int → Option Nat

inductive HashidCall where
  | insert (id : Int)
  | remove (id : Int)
  | lookup (id : Int)

def hashidCall (s : HashidUse) : HashidCall → Option (HashidUse × List Int)
  | .insert id =>
    (hashidInsert s.table id).map fun out =>
      (⟨out.1, Function.update s.slots id (some out.2)⟩, [(out.2 : Int)])
  | .remove id =>
    (hashidRemove s.table id).map fun out =>
      (⟨out.1, Function.update s.slots id none⟩, [out.2])
  | .lookup id => (hashidLookup s.table id).map fun r => (s, [r])

/-- What a caller may ask for: any lookup and removal, and the insertion of a new id. -/
def HashidUse.admits (s : HashidUse) : HashidCall → Prop
  | .insert id => 0 ≤ id ∧ s.slots id = none ∧ hashidFull s.table = false ∧
      id + s.table.cap ≤ 2 ^ 31 - 1
  | .remove _ => True
  | .lookup _ => True

def slotOrMinusOne : Option Nat → Int
  | none => -1
  | some a => a

/-- What a call has to return and to leave. -/
def HashidUse.Answers (s : HashidUse) : HashidCall → HashidUse → List Int → Prop
  | .insert _, _, out => ∃ c : Nat, out = [(c : Int)] ∧ c < s.table.cap ∧
      (s.table.id c).id = -1 ∧ ∀ id, s.slots id ≠ some c
  | .remove id, s', out => out = [slotOrMinusOne (s.slots id)] ∧ (s.slots id = none → s' = s)
  | .lookup id, s', out => out = [slotOrMinusOne (s.slots id)] ∧ s' = s

/-- The table is that of its ids: every slot has one id, and the list of a bucket ends and holds
the ids that hash to it. -/
structure HashidUse.IsMap (s : HashidUse) : Prop where
  slot_lt : ∀ id a, s.slots id = some a → a < s.table.cap
  injective : ∀ id id' a, s.slots id = some a → s.slots id' = some a → id = id'
  count : ∃ ids : Finset Int, (∀ id, id ∈ ids ↔ (s.slots id).isSome) ∧ s.table.count = ids.card
  chains : ∀ h, ∃ l, Chain s.table.next (s.table.hash h) l ∧ l.Nodup ∧
    ∀ id, id ∈ l.map (fun a => (s.table.id a).id) ↔
      (s.slots id).isSome ∧ s.table.bucket id = h

/-- Every run from `hashid_init(cap)` goes on, with a map in every state and the answers of the
map. -/
def HashidMaps (cap : Nat) : Prop :=
  ∃ hi, hashidInitInt cap = some hi ∧
    ∀ tr s, Exec hashidCall HashidUse.admits ⟨hi, fun _ => none⟩ tr s → s.IsMap ∧
      ∀ call, s.admits call → ∃ s' out, hashidCall s call = some (s', out) ∧ s.Answers call s' out

/-! ## The map in every state -/

/-- The invariant of the table, with the slots as the table has them. -/
structure HashidUse.Tracks (s : HashidUse) : Prop where
  ok : HashidOk s.table
  slots : ∀ id a, s.slots id = some a ↔ s.table.Holds id a

namespace HashidUse.Tracks

variable {s : HashidUse}

theorem none_iff (h : s.Tracks) (id : Int) : s.slots id = none ↔ ∀ a, ¬ s.table.Holds id a := by
  rw [Option.eq_none_iff_forall_ne_some]
  exact forall_congr' fun a => not_congr (h.slots id a)

theorem isSome_iff (h : s.Tracks) (id : Int) :
    (s.slots id).isSome ↔ ∃ a, s.table.Holds id a := by
  rw [Option.isSome_iff_exists]
  exact exists_congr fun a => h.slots id a

theorem isMap (h : s.Tracks) : s.IsMap where
  slot_lt id a ha := ((h.slots id a).mp ha).1
  injective id id' a ha ha' := by
    have hid := ((h.slots id a).mp ha).2.1
    have hid' := ((h.slots id' a).mp ha').2.1
    exact hid.symm.trans hid'
  count := by
    refine ⟨s.table.occupied.image fun a => (s.table.id a).id, ?_, ?_⟩
    · intro id
      rw [h.isSome_iff, Finset.mem_image]
      constructor
      · rintro ⟨a, ha, rfl⟩
        obtain ⟨hcap, hocc⟩ := Finset.mem_filter.mp ha
        exact ⟨a, Finset.mem_range.mp hcap, rfl, hocc⟩
      · rintro ⟨a, ha⟩
        exact ⟨a, ha.mem_occupied, ha.2.1⟩
    · rw [h.ok.count, Finset.card_image_of_injOn]
      intro a ha b hb hab
      obtain ⟨hcap, hocc⟩ := Finset.mem_filter.mp ha
      obtain ⟨hcap', hocc'⟩ := Finset.mem_filter.mp hb
      exact h.ok.distinct ⟨Finset.mem_range.mp hcap, rfl, hocc⟩
        ⟨Finset.mem_range.mp hcap', hab.symm, hocc⟩
  chains bucket := by
    obtain ⟨l, hl, hmem⟩ := h.ok.chains bucket
    refine ⟨l, hl, hl.nodup, ?_⟩
    intro id
    rw [h.isSome_iff, List.mem_map]
    constructor
    · rintro ⟨a, ha, rfl⟩
      obtain ⟨hcap, hocc, hbucket⟩ := (hmem a).mp ha
      exact ⟨⟨a, hcap, rfl, hocc⟩, hbucket⟩
    · rintro ⟨⟨a, hcap, rfl, hocc⟩, hbucket⟩
      exact ⟨a, (hmem a).mpr ⟨hcap, hocc, hbucket⟩, rfl⟩

theorem start (cap : Capacity) : Tracks ⟨hashidInit cap, fun _ => none⟩ where
  ok := emptyHashid_ok _ cap
  slots id a := by
    constructor
    · intro h
      cases h
    · rintro ⟨-, hid, hne⟩
      exact absurd hid.symm hne

theorem of_inserted (h : s.Tracks) {hi' : Hashid} {id : Int} {c : Nat} (hne : id ≠ -1)
    (habsent : s.slots id = none) (hcap : c < s.table.cap) (hfree : (s.table.id c).id = -1)
    (hok : HashidOk hi') (hset : s.table.SetAt hi' c id) :
    Tracks ⟨hi', Function.update s.slots id (some c)⟩ where
  ok := hok
  slots x a := by
    change Function.update s.slots id (some c) x = some a ↔ hi'.Holds x a
    by_cases hxid : x = id
    · subst hxid
      rw [Function.update_self]
      constructor
      · intro hca
        cases hca
        exact ⟨hset.cap ▸ hcap, hset.here, hne⟩
      · intro ha
        by_contra hca
        have hac : a ≠ c := fun hac => hca (congrArg some hac.symm)
        exact (h.none_iff x).mp habsent a ((hset.holds_iff hac).mp ha)
    · rw [Function.update_of_ne hxid, h.slots]
      by_cases hac : a = c
      · subst hac
        constructor
        · rintro ⟨-, hxa, hxne⟩
          exact absurd (hxa.symm.trans hfree) hxne
        · rintro ⟨-, hxa, -⟩
          exact absurd (hxa.symm.trans hset.here) hxid
      · exact (hset.holds_iff hac).symm

theorem of_removed (h : s.Tracks) {hi' : Hashid} {id : Int} {a : Nat} (ha : s.table.Holds id a)
    (hok : HashidOk hi') (hset : s.table.SetAt hi' a (-1)) :
    Tracks ⟨hi', Function.update s.slots id none⟩ where
  ok := hok
  slots x b := by
    change Function.update s.slots id none x = some b ↔ hi'.Holds x b
    by_cases hxid : x = id
    · subst hxid
      rw [Function.update_self]
      constructor
      · intro hnone
        cases hnone
      · intro hb
        have hba : b ≠ a := by
          rintro rfl
          exact hb.2.2 (hb.2.1.symm.trans hset.here)
        exact absurd (h.ok.distinct ((hset.holds_iff hba).mp hb) ha) hba
    · rw [Function.update_of_ne hxid, h.slots]
      by_cases hba : b = a
      · subst hba
        constructor
        · intro hx
          exact absurd (hx.2.1.symm.trans ha.2.1) hxid
        · intro hx
          exact absurd (hx.2.1.symm.trans hset.here) hx.2.2
      · exact (hset.holds_iff hba).symm

/-! ## One call -/

theorem insert (h : s.Tracks) {id : Int} (hadmits : s.admits (.insert id)) :
    ∃ s' out, hashidCall s (.insert id) = some (s', out) ∧ s.Answers (.insert id) s' out ∧
      s'.Tracks := by
  obtain ⟨hid, habsent, hfull, hmax⟩ := hadmits
  have hne : id ≠ -1 := by omega
  have hcount : s.table.count ≠ s.table.cap := by
    intro heq
    rw [hashidFull, heq, beq_self_eq_true] at hfull
    cases hfull
  obtain ⟨hi', c, hinsert⟩ := h.ok.insert_isSome hid hmax hcount
  obtain ⟨hcap, hfree, hok, hset⟩ := h.ok.inserted hne ((h.none_iff id).mp habsent) hinsert
  refine ⟨_, _, by rw [hashidCall, hinsert]; rfl, ⟨c, rfl, hcap, hfree, ?_⟩,
    h.of_inserted hne habsent hcap hfree hok hset⟩
  intro x hx
  obtain ⟨-, hxc, hxne⟩ := (h.slots x c).mp hx
  exact hxne (hxc.symm.trans hfree)

theorem remove (h : s.Tracks) (id : Int) :
    ∃ s' out, hashidCall s (.remove id) = some (s', out) ∧ s.Answers (.remove id) s' out ∧
      s'.Tracks := by
  cases hslot : s.slots id with
  | none =>
    have hremove := h.ok.remove_of_absent ((h.none_iff id).mp hslot)
    have hsame : Function.update s.slots id none = s.slots := by
      rw [← hslot, Function.update_eq_self]
    refine ⟨s, [-1], ?_, ⟨by rw [hslot]; rfl, fun _ => rfl⟩, h⟩
    rw [hashidCall, hremove, Option.map_some, hsame]
  | some a =>
    have ha := (h.slots id a).mp hslot
    obtain ⟨hi', hremove, hok, hset⟩ := h.ok.remove_of_holds ha
    refine ⟨_, _, by rw [hashidCall, hremove]; rfl, ⟨by rw [hslot]; rfl, ?_⟩,
      h.of_removed ha hok hset⟩
    intro hnone
    rw [hslot] at hnone
    cases hnone

theorem lookup (h : s.Tracks) (id : Int) :
    ∃ s' out, hashidCall s (.lookup id) = some (s', out) ∧ s.Answers (.lookup id) s' out ∧
      s'.Tracks := by
  cases hslot : s.slots id with
  | none =>
    have hlookup := h.ok.lookup_of_absent ((h.none_iff id).mp hslot)
    exact ⟨s, [-1], by rw [hashidCall, hlookup]; rfl, ⟨by rw [hslot]; rfl, rfl⟩, h⟩
  | some a =>
    have hlookup := h.ok.lookup_of_holds ((h.slots id a).mp hslot)
    exact ⟨s, [(a : Int)], by rw [hashidCall, hlookup]; rfl, ⟨by rw [hslot]; rfl, rfl⟩, h⟩

theorem call (h : s.Tracks) {call : HashidCall} (hadmits : s.admits call) :
    ∃ s' out, hashidCall s call = some (s', out) ∧ s.Answers call s' out ∧ s'.Tracks := by
  cases call with
  | insert id => exact h.insert hadmits
  | remove id => exact h.remove id
  | lookup id => exact h.lookup id

end HashidUse.Tracks

/-! ## Every run -/

/-- The table is a map from ids to slots in every run exactly when `hashid_init` can double its
number of lists as far as it has to. -/
theorem hashid_maps_iff (cap : Nat) : HashidMaps cap ↔ cap ≤ 2 ^ 30 := by
  constructor
  · intro hmaps
    obtain ⟨hi, hinit, -⟩ := hmaps
    by_contra hlarge
    rw [hashidInitInt_none (Nat.lt_of_not_le hlarge)] at hinit
    cases hinit
  · intro hsmall
    refine ⟨hashidInit ⟨cap, hsmall⟩, hashidInitInt_eq hsmall, ?_⟩
    intro tr s hrun
    have htracks : s.Tracks := by
      apply hrun.invariant HashidUse.Tracks (.start ⟨cap, hsmall⟩)
      intro s call s' out h hadmits hcall
      obtain ⟨t, out', hcall', -, ht⟩ := h.call hadmits
      rw [hcall] at hcall'
      cases hcall'
      exact ht
    refine ⟨htracks.isMap, ?_⟩
    intro call hadmits
    obtain ⟨s', out, hcall, hanswers, -⟩ := htracks.call hadmits
    exact ⟨s', out, hcall, hanswers⟩

/-- For one id more the doubling overflows. -/
theorem hashid_not_maps : hashidInitInt (2 ^ 30 + 1) = none ∧ ¬HashidMaps (2 ^ 30 + 1) := by
  have hnone : hashidInitInt (2 ^ 30 + 1) = none := hashidInitInt_none (by decide)
  refine ⟨hnone, ?_⟩
  rintro ⟨hi, hinit, -⟩
  rw [hnone] at hinit
  cases hinit

end NetgameFormal
