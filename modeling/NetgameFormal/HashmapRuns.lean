import NetgameFormal.HashmapTable
import NetgameFormal.Runs
import Mathlib.Data.Fintype.EquivFin
import Mathlib.Tactic.Push

/-!
# Runs of the hash map

For names that fit in 32 bytes the map is an association list, as long as only
keys that are present are removed, and the objects of inserted keys have 32
bytes: a removal from an empty bucket uses a null pointer, and an insertion copies
32 bytes whatever the length of its key. Names that do not fit are told apart by
their hash and their first 32 bytes.
-/

set_option autoImplicit false

namespace NetgameFormal

open AssocLists Hashmap

inductive MapCall where
  | insert (key : CString) (value : BitVec 32) (a : Nat)
  | search (key : CString)
  | remove (key : CString)

def MapCall.key : MapCall → CString
  | .insert key _ _ => key
  | .search key => key
  | .remove key => key

def hashmapCall (hash : Hashmap) : MapCall → Option (Hashmap × List (BitVec 32))
  | .insert key value a => (hashInsert hash key value a).map fun map => (map, [])
  | .search key => (hashSearch hash key).map fun value => (hash, [value])
  | .remove key => (hashRemove hash key).map fun out => (out.1, [out.2])

/-! ## The association list -/

abbrev Assoc := List (List Byte × BitVec 32)

/-- The value of the newest entry of a string, or -1. -/
def Assoc.value (m : Assoc) (chars : List Byte) : BitVec 32 := (newest m chars).getD (-1)

def assocCall (m : Assoc) : MapCall → Assoc × List (BitVec 32)
  | .insert key value _ => ((key.chars, value) :: m, [])
  | .search key => (m, [m.value key.chars])
  | .remove key => (dropNewest m key.chars, [m.value key.chars])

/-- A removal answers the newest insertion of its key, and uncovers what that one hid. -/
theorem assocCall_uncovers (m : Assoc) (key : CString) (value : BitVec 32) (a : Nat) :
    assocCall (assocCall m (.insert key value a)).1 (.remove key) = (m, [value]) := by
  simp only [assocCall, Assoc.value, newest_cons_self, dropNewest_cons_self, Option.getD_some]

/-- A map, and the list it should be. -/
structure MapUse where
  map : Hashmap
  assoc : Assoc

def mapCall (s : MapUse) (call : MapCall) : Option (MapUse × List (BitVec 32)) :=
  (hashmapCall s.map call).map fun out => (⟨out.1, (assocCall s.assoc call).1⟩, out.2)

/-- Names that fit; `malloc` returns memory that is free. -/
def MapUse.admitsShort (s : MapUse) (call : MapCall) : Prop :=
  call.key.chars.length < GLOBALNAME_LENGTH ∧
    match call with
    | .insert _ _ a => s.map.heap a = none
    | _ => True

/-- And only keys that are present are removed. -/
def MapUse.admits (s : MapUse) (call : MapCall) : Prop :=
  s.admitsShort call ∧
    match call with
    | .remove key => newest s.assoc key.chars ≠ none
    | _ => True

instance MapUse.decidableAdmits (s : MapUse) (call : MapCall) : Decidable (s.admits call) :=
  match call with
  | .insert key _ a => inferInstanceAs
      (Decidable ((key.chars.length < GLOBALNAME_LENGTH ∧ s.map.heap a = none) ∧ True))
  | .search key =>
    inferInstanceAs (Decidable ((key.chars.length < GLOBALNAME_LENGTH ∧ True) ∧ True))
  | .remove key => inferInstanceAs
      (Decidable ((key.chars.length < GLOBALNAME_LENGTH ∧ True) ∧ newest s.assoc key.chars ≠ none))

/-- The 32 bytes that `hash_insert` copies are inside the object of its key. -/
def MapCall.Readable : MapCall → Prop
  | .insert key _ _ => GLOBALNAME_LENGTH ≤ key.object.length
  | .search _ => True
  | .remove _ => True

instance : DecidablePred MapCall.Readable
  | .insert key _ _ => inferInstanceAs (Decidable (GLOBALNAME_LENGTH ≤ key.object.length))
  | .search _ => isTrue trivial
  | .remove _ => isTrue trivial

def MapEntry.pair (e : MapEntry) : List Byte × BitVec 32 := (e.key.chars, e.value)

/-- The map has the entries of the list. -/
structure MapUse.Tracks (s : MapUse) (l : List MapEntry) : Prop where
  represents : s.map.Represents l
  short : ∀ e ∈ l, e.key.chars.length < GLOBALNAME_LENGTH
  assoc : s.assoc = l.map MapEntry.pair

namespace MapUse.Tracks

variable {s s' : MapUse} {l : List MapEntry} {key : CString}

theorem start (hashSize : Nat) : Tracks ⟨hashNew hashSize, []⟩ [] where
  represents := represents_new hashSize
  short _ he := absurd he List.not_mem_nil
  assoc := rfl

theorem sameKey_eq (h : s.Tracks l) (hkey : key.chars.length < GLOBALNAME_LENGTH) :
    ∀ e ∈ l, e.sameKey key = decide (e.pair.1 = key.chars) := by
  intro e he
  rw [MapEntry.sameKey, Bool.eq_iff_iff, decide_eq_true_iff, decide_eq_true_iff]
  exact keyIdentity_injective (h.short e he) hkey

theorem find?_map (h : s.Tracks l) (hkey : key.chars.length < GLOBALNAME_LENGTH) :
    s.assoc.find? (fun e => e.1 = key.chars) = (l.find? (MapEntry.sameKey key)).map MapEntry.pair := by
  rw [h.assoc, List.find?_map, List.find?_congr (h.sameKey_eq hkey)]
  rfl

theorem value_eq (h : s.Tracks l) (hkey : key.chars.length < GLOBALNAME_LENGTH) :
    s.assoc.value key.chars = foundValue l key := by
  rw [Assoc.value, newest, h.find?_map hkey, Option.map_map]
  rfl

theorem newest_eq_none (h : s.Tracks l) (hkey : key.chars.length < GLOBALNAME_LENGTH) :
    newest s.assoc key.chars = none ↔ l.find? (MapEntry.sameKey key) = none := by
  rw [newest, h.find?_map hkey, Option.map_eq_none_iff, Option.map_eq_none_iff]

theorem dropNewest_eq (h : s.Tracks l) (hkey : key.chars.length < GLOBALNAME_LENGTH) :
    dropNewest s.assoc key.chars = (l.eraseP (MapEntry.sameKey key)).map MapEntry.pair := by
  rw [dropNewest, h.assoc, List.eraseP_map, eraseP_congr (h.sameKey_eq hkey)]
  rfl

theorem search (h : s.Tracks l) (hkey : key.chars.length < GLOBALNAME_LENGTH) :
    hashSearch s.map key = some (s.assoc.value key.chars) := by
  rw [h.represents.search_eq, h.value_eq hkey]

/-! ## One call -/

theorem insert (h : s.Tracks l) (hkey : key.chars.length < GLOBALNAME_LENGTH) {a : Nat}
    (hfree : s.map.heap a = none) {value : BitVec 32} {map : Hashmap}
    (hinsert : hashInsert s.map key value a = some map) :
    Tracks ⟨map, (key.chars, value) :: s.assoc⟩ (⟨a, key, value⟩ :: l) where
  represents := h.represents.insert hfree hinsert
  short e he := by
    cases he with
    | head => exact hkey
    | tail _ he => exact h.short e he
  assoc := by
    rw [h.assoc]
    rfl

theorem remove_cases (h : s.Tracks l) (hkey : key.chars.length < GLOBALNAME_LENGTH) :
    (l.filter (s.map.inBucket (s.map.bucket (hashString key.chars))) = [] ∧
      newest s.assoc key.chars = none ∧ hashRemove s.map key = none) ∨
    (l.filter (s.map.inBucket (s.map.bucket (hashString key.chars))) ≠ [] ∧
      newest s.assoc key.chars = none ∧ hashRemove s.map key = some (s.map, -1) ∧
      dropNewest s.assoc key.chars = s.assoc) ∨
    (newest s.assoc key.chars ≠ none ∧
      ∃ map, hashRemove s.map key = some (map, s.assoc.value key.chars) ∧
        Tracks ⟨map, dropNewest s.assoc key.chars⟩ (l.eraseP (MapEntry.sameKey key))) := by
  cases hfind : l.find? (MapEntry.sameKey key) with
  | none =>
    have habsent := (h.newest_eq_none hkey).mpr hfind
    by_cases hempty : l.filter (s.map.inBucket (s.map.bucket (hashString key.chars))) = []
    · exact .inl ⟨hempty, habsent, h.represents.remove_of_empty hempty⟩
    · refine .inr (.inl ⟨hempty, habsent, h.represents.remove_of_absent hempty hfind, ?_⟩)
      rw [h.dropNewest_eq hkey, h.assoc, List.eraseP_of_forall_not]
      intro e he
      have hnone := List.find?_eq_none.mp hfind e he
      exact hnone
  | some e =>
    have hpresent : newest s.assoc key.chars ≠ none := by
      rw [ne_eq, h.newest_eq_none hkey, hfind]
      exact Option.some_ne_none _
    obtain ⟨map, hremove, -, -, hrepresents⟩ := h.represents.remove_of_present hfind
    have hvalue : s.assoc.value key.chars = e.value := by
      rw [h.value_eq hkey, foundValue, hfind]
      rfl
    refine .inr (.inr ⟨hpresent, map, by rw [hremove, hvalue], hrepresents, ?_, ?_⟩)
    · intro e' he'
      exact h.short e' (List.mem_of_mem_eraseP he')
    · exact h.dropNewest_eq hkey

/-- A call that runs to its end does on the map what it does on the list. -/
theorem step (h : s.Tracks l) {call : MapCall} {out : List (BitVec 32)}
    (hadmits : s.admitsShort call) (hcall : mapCall s call = some (s', out)) :
    out = (assocCall s.assoc call).2 ∧ ∃ l', s'.Tracks l' := by
  obtain ⟨hkey, hfree⟩ := hadmits
  cases call with
  | insert key value a =>
    obtain ⟨out, hout, hstate⟩ := Option.map_eq_some_iff.mp hcall
    obtain ⟨map, hinsert, rfl⟩ := Option.map_eq_some_iff.mp hout
    cases hstate
    exact ⟨rfl, _, h.insert hkey hfree hinsert⟩
  | search key =>
    have hshort : key.chars.length < GLOBALNAME_LENGTH := hkey
    rw [mapCall, hashmapCall, h.search hshort] at hcall
    cases hcall
    exact ⟨rfl, l, h⟩
  | remove key =>
    have hshort : key.chars.length < GLOBALNAME_LENGTH := hkey
    rcases h.remove_cases hshort with
      ⟨-, -, hremove⟩ | ⟨-, habsent, hremove, hsame⟩ | ⟨-, map, hremove, htracks⟩
    · rw [mapCall, hashmapCall, hremove] at hcall
      cases hcall
    · rw [mapCall, hashmapCall, hremove] at hcall
      cases hcall
      refine ⟨?_, l, ?_⟩
      · rw [assocCall, Assoc.value, habsent]
        rfl
      · rw [assocCall, hsame]
        exact h
    · rw [mapCall, hashmapCall, hremove] at hcall
      cases hcall
      exact ⟨rfl, _, htracks⟩

/-- Only an insertion from a short object goes wrong. -/
theorem returns_iff (h : s.Tracks l) {call : MapCall} (hadmits : s.admits call) :
    (∃ s' out, mapCall s call = some (s', out)) ↔ call.Readable := by
  obtain ⟨⟨hkey, -⟩, hpresent⟩ := hadmits
  cases call with
  | insert key value a =>
    constructor
    · rintro ⟨s', out, hcall⟩
      obtain ⟨out, hout, -⟩ := Option.map_eq_some_iff.mp hcall
      obtain ⟨map, hinsert, -⟩ := Option.map_eq_some_iff.mp hout
      exact (hashInsert_eq_some_iff.mp hinsert).1
    · intro hread
      obtain ⟨map, hinsert⟩ := exists_hashInsert hread s.map value a
      rw [mapCall, hashmapCall, hinsert]
      exact ⟨_, _, rfl⟩
  | search key =>
    have hshort : key.chars.length < GLOBALNAME_LENGTH := hkey
    rw [mapCall, hashmapCall, h.search hshort]
    exact iff_of_true ⟨_, _, rfl⟩ trivial
  | remove key =>
    have hshort : key.chars.length < GLOBALNAME_LENGTH := hkey
    rcases h.remove_cases hshort with ⟨-, habsent, -⟩ | ⟨-, habsent, -⟩ | ⟨-, map, hremove, -⟩
    · exact absurd habsent hpresent
    · exact absurd habsent hpresent
    · rw [mapCall, hashmapCall, hremove]
      exact iff_of_true ⟨_, _, rfl⟩ trivial

theorem run {hashSize : Nat} {tr : List (Record MapUse MapCall (BitVec 32))}
    (hrun : Exec mapCall MapUse.admitsShort ⟨hashNew hashSize, []⟩ tr s) : ∃ l, s.Tracks l := by
  apply hrun.invariant (fun (s : MapUse) => ∃ l, s.Tracks l) ⟨[], start hashSize⟩
  intro s call s' out h hadmits hcall
  obtain ⟨l, h⟩ := h
  exact (h.step hadmits hcall).2

end MapUse.Tracks

/-! ## Removing what is absent -/

/-- A removal that misses returns -1 and changes no search. -/
def MissIsHarmless (hash : Hashmap) (key : CString) : Prop :=
  ∃ hash', hashRemove hash key = some (hash', -1) ∧
    ∀ k, hashSearch hash' k = hashSearch hash k

/-- A miss is harmless exactly when some other name is in the bucket. -/
theorem miss_harmless_iff {hashSize : Nat} {tr : List (Record MapUse MapCall (BitVec 32))}
    {s : MapUse} (hrun : Exec mapCall MapUse.admitsShort ⟨hashNew hashSize, []⟩ tr s)
    {key : CString} (hkey : key.chars.length < GLOBALNAME_LENGTH)
    (habsent : newest s.assoc key.chars = none) :
    MissIsHarmless s.map key ↔
      ∃ e ∈ s.assoc, s.map.bucket (hashString e.1) = s.map.bucket (hashString key.chars) := by
  obtain ⟨l, h⟩ := MapUse.Tracks.run hrun
  have hbucket : (∃ e ∈ s.assoc, s.map.bucket (hashString e.1)
      = s.map.bucket (hashString key.chars)) ↔
      l.filter (s.map.inBucket (s.map.bucket (hashString key.chars))) ≠ [] := by
    rw [h.assoc, ne_eq, List.filter_eq_nil_iff]
    push Not
    constructor
    · rintro ⟨pair, hpair, hsame⟩
      obtain ⟨e, he, rfl⟩ := List.mem_map.mp hpair
      exact ⟨e, he, decide_eq_true hsame⟩
    · rintro ⟨e, he, hin⟩
      exact ⟨_, List.mem_map_of_mem he, of_decide_eq_true hin⟩
  rw [hbucket]
  constructor
  · rintro ⟨hash', hremove, -⟩ hempty
    rw [h.represents.remove_of_empty hempty] at hremove
    cases hremove
  · intro hfilter
    have hnone := (h.newest_eq_none hkey).mp habsent
    exact ⟨s.map, h.represents.remove_of_absent hfilter hnone, fun _ => rfl⟩

/-- `hello`, in a buffer of 32 bytes. -/
def helloName : CString :=
  ⟨[104#8, 101#8, 108#8, 108#8, 111#8], List.replicate 26 0#8, by decide⟩

/-- `hanxi`, as a literal -/
def hanxiName : CString := ⟨[104#8, 97#8, 110#8, 120#8, 105#8], [], by decide⟩

def helloUse : MapUse :=
  ⟨(hashInsert (hashNew 1) helloName 1 0).getD (hashNew 1), [(helloName.chars, 1)]⟩

theorem helloUse_run :
    Exec mapCall MapUse.admitsShort ⟨hashNew 1, []⟩
      [⟨⟨hashNew 1, []⟩, .insert helloName 1 0, [], helloUse⟩] helloUse :=
  .cons (i := MapCall.insert helloName 1 0) ⟨by decide, rfl⟩ rfl .nil

theorem miss_harmless_hanxi : MissIsHarmless helloUse.map hanxiName ↔
    ∃ e ∈ helloUse.assoc,
      helloUse.map.bucket (hashString e.1) = helloUse.map.bucket (hashString hanxiName.chars) :=
  miss_harmless_iff helloUse_run (by decide) (by decide)

/-- In a new map the bucket of every name is empty. -/
theorem miss_not_harmless :
    hashRemove (hashNew 9) helloName = none ∧ ¬MissIsHarmless (hashNew 9) helloName := by
  have hnone : hashRemove (hashNew 9) helloName = none := rfl
  refine ⟨hnone, ?_⟩
  rintro ⟨hash', hremove, -⟩
  rw [hnone] at hremove
  cases hremove

/-! ## The map as a list -/

/-- The map and its list; there is none once a call has left the defined behaviour. -/
abbrev useStep : Option MapUse → MapCall → Option (Option MapUse × List (BitVec 32)) :=
  stopping mapCall fun _ _ => []

/-- A call returns what the list answers. After it every key is searched as in the list, and only
that of the call differently than before. -/
def CallRefines (s : MapUse) (call : MapCall) (out : List (BitVec 32)) (next : Option MapUse) :
    Prop :=
  ∃ s', next = some s' ∧ out = (assocCall s.assoc call).2 ∧ s'.assoc = (assocCall s.assoc call).1 ∧
    (∀ key : CString, key.chars.length < GLOBALNAME_LENGTH →
      hashSearch s'.map key = some (s'.assoc.value key.chars)) ∧
    ∀ key : CString, key.chars.length < GLOBALNAME_LENGTH → key.chars ≠ call.key.chars →
      hashSearch s'.map key = hashSearch s.map key

theorem mapCall_assoc {s s' : MapUse} {call : MapCall} {out : List (BitVec 32)}
    (h : mapCall s call = some (s', out)) : s'.assoc = (assocCall s.assoc call).1 := by
  obtain ⟨result, -, hresult⟩ := Option.map_eq_some_iff.mp h
  cases hresult
  rfl

theorem assocCall_other {m : Assoc} {call : MapCall} {chars : List Byte}
    (hne : chars ≠ call.key.chars) : (assocCall m call).1.value chars = m.value chars := by
  cases call with
  | insert key value a =>
    rw [Assoc.value, Assoc.value]
    exact congrArg (Option.getD · (-1)) (newest_cons_of_ne hne)
  | search key => rfl
  | remove key =>
    rw [Assoc.value, Assoc.value]
    exact congrArg (Option.getD · (-1)) (newest_dropNewest_of_ne hne)

theorem MapUse.Tracks.refines {s s' : MapUse} {l : List MapEntry} (h : s.Tracks l) {call : MapCall}
    {out : List (BitVec 32)} (hadmits : s.admits call) (hcall : mapCall s call = some (s', out)) :
    CallRefines s call out (some s') := by
  obtain ⟨hout, l', h'⟩ := h.step hadmits.1 hcall
  have hassoc := mapCall_assoc hcall
  refine ⟨s', rfl, hout, hassoc, fun key hkey => h'.search hkey, ?_⟩
  intro key hkey hne
  rw [h.search hkey, h'.search hkey, hassoc, assocCall_other hne]

/-- Every call of a run does what it does on the list exactly when every key inserted lies in an
object of 32 bytes. -/
theorem hashmap_refines_iff {hashSize : Nat}
    {tr : List (Record (Option MapUse) MapCall (BitVec 32))} {p : Option MapUse}
    (hrun : Exec useStep (running MapUse.admits) (some ⟨hashNew hashSize, []⟩) tr p) :
    (∀ r ∈ tr, ∀ s, r.pre = some s → CallRefines s r.input r.output r.post) ↔
      ∀ r ∈ tr, r.input.Readable := by
  have hsteps := stopping_records_iff (fun s => ∃ l, s.Tracks l) CallRefines
    (fun _ call => call.Readable) ⟨[], .start hashSize⟩ ?_ ?_ ?_ hrun
  · rw [hsteps]
    constructor
    · intro hread r hr
      obtain ⟨s, hs⟩ := stopping_pre hrun r hr
      exact hread r hr s hs
    · exact fun hread r hr _ _ => hread r hr
  · rintro s call s' out ⟨l, h⟩ hadmits hcall
    exact iff_of_true (h.refines hadmits hcall) ((h.returns_iff hadmits).mp ⟨s', out, hcall⟩)
  · rintro s call ⟨l, h⟩ hadmits hcall
    have hnone : ¬ ∃ s' out, mapCall s call = some (s', out) := by simp [hcall]
    refine iff_of_false ?_ (mt (h.returns_iff hadmits).mpr hnone)
    rintro ⟨s', hnext, -⟩
    cases hnext
  · rintro s call s' out ⟨l, h⟩ hadmits hcall -
    exact (h.step hadmits.1 hcall).2

/-- `hello`, as a literal of six bytes. -/
def helloLiteral : CString := ⟨helloName.chars, [], helloName.nonzero⟩

/-- The copy of a literal goes beyond its end. -/
theorem literal_not_copied :
    hashInsert (hashNew 9) helloLiteral 1 0 = none ∧
    ∃ tr, Exec useStep (running MapUse.admits) (some ⟨hashNew 9, []⟩) tr none ∧
      tr.map Record.input = [.insert helloLiteral 1 0] ∧
      ¬ ∀ r ∈ tr, ∀ s, r.pre = some s → CallRefines s r.input r.output r.post := by
  have hnone : hashInsert (hashNew 9) helloLiteral 1 0 = none := by decide
  have hcall : mapCall ⟨hashNew 9, []⟩ (.insert helloLiteral 1 0) = none := by
    rw [mapCall, hashmapCall, hnone]
    rfl
  have hadmits : running MapUse.admits (some ⟨hashNew 9, []⟩) (.insert helloLiteral 1 0) := by
    intro s hs
    obtain rfl := Option.some.inj hs
    exact ⟨⟨by decide, rfl⟩, trivial⟩
  refine ⟨hnone, _, .cons hadmits (stopping_of_none hcall) .nil, rfl, ?_⟩
  intro hrefines
  obtain ⟨s', hnext, -⟩ := hrefines _ List.mem_cons_self _ rfl
  cases hnext

/-- `hello` is inserted from a buffer of 32 bytes, searched and removed. -/
theorem hashmap_refines_hello :
    ∃ tr p, Exec useStep (running MapUse.admits) (some ⟨hashNew 9, []⟩) tr p ∧
      tr.map Record.input =
        [.insert helloName 1 0, .search helloLiteral, .remove helloLiteral, .search helloName] ∧
      outputsOf tr = [1, 1, -1] ∧
      ∀ r ∈ tr, ∀ s, r.pre = some s → CallRefines s r.input r.output r.post := by
  have hrun : (execute useStep (running MapUse.admits) (some ⟨hashNew 9, []⟩)
      [.insert helloName 1 0, .search helloLiteral, .remove helloLiteral, .search helloName]).map
      (fun run => outputsOf run.1) = some [1, 1, -1] := by decide +kernel
  obtain ⟨⟨tr, p⟩, hexec, houtput⟩ := Option.map_eq_some_iff.mp hrun
  have h := execute_exec hexec
  have hinputs := execute_inputs hexec
  refine ⟨tr, p, h, hinputs, houtput, (hashmap_refines_iff h).mpr ?_⟩
  have hread : ∀ call ∈ tr.map Record.input, call.Readable := by
    rw [hinputs]
    decide
  exact fun r hr => hread r.input (List.mem_map_of_mem hr)

/-! ## Long keys -/

/-- A map, and the insertions whose nodes have not been freed. -/
structure MapLog where
  map : Hashmap
  entries : List MapEntry

def MapLog.admits (s : MapLog) : MapCall → Prop
  | .insert _ _ a => s.map.heap a = none
  | _ => True

def logged (entries : List MapEntry) (map : Hashmap) : MapCall → List MapEntry
  | .insert key value a => ⟨a, key, value⟩ :: entries
  | _ => entries.filter fun e => (map.heap e.addr).isSome

def logCall (s : MapLog) (call : MapCall) : Option (MapLog × List (BitVec 32)) :=
  (hashmapCall s.map call).map fun out => (⟨out.1, logged s.entries out.1 call⟩, out.2)

/-- An insertion of `k` leaves what is found for `k'`, and a removal of `k` frees no entry that
was inserted under `k'`. -/
def MapLog.KeepsApart (s : MapLog) (k k' : CString) : Prop :=
  (∀ value a map, s.map.heap a = none → hashInsert s.map k value a = some map →
    hashSearch map k' = hashSearch s.map k') ∧
  ∀ map value, hashRemove s.map k = some (map, value) →
    ∀ e ∈ s.entries, e.key.chars = k'.chars → (map.heap e.addr).isSome

section Log

variable {s s' : MapLog} {k k' : CString}

theorem live_of_represents {map : Hashmap} {l : List MapEntry} (h : map.Represents l) :
    ∀ e ∈ l, (map.heap e.addr).isSome = true := by
  intro e he
  obtain ⟨node, hnode, -⟩ := h.stored e he
  rw [hnode]
  rfl

/-- A removal frees the first entry that the map takes for its key, if there is one. -/
theorem remove_represents {map map' : Hashmap} {l : List MapEntry} (h : map.Represents l)
    {value : BitVec 32} (hremove : hashRemove map k = some (map', value)) :
    map'.Represents (l.eraseP (MapEntry.sameKey k)) ∧
      (l.filter fun e => (map'.heap e.addr).isSome) = l.eraseP (MapEntry.sameKey k) := by
  cases hfind : l.find? (MapEntry.sameKey k) with
  | none =>
    have hsame : l.eraseP (MapEntry.sameKey k) = l :=
      List.eraseP_of_forall_not fun e he => List.find?_eq_none.mp hfind e he
    by_cases hempty : l.filter (map.inBucket (map.bucket (hashString k.chars))) = []
    · rw [h.remove_of_empty hempty] at hremove
      cases hremove
    · rw [h.remove_of_absent hempty hfind] at hremove
      cases hremove
      rw [hsame]
      exact ⟨h, List.filter_eq_self.mpr (live_of_represents h)⟩
  | some e =>
    obtain ⟨map'', hremove', -, hfreed, h''⟩ := h.remove_of_present hfind
    rw [hremove] at hremove'
    cases hremove'
    refine ⟨h'', filter_eq_eraseP hfind ?_ (live_of_represents h'')⟩
    rw [hfreed]
    rfl

theorem log_run {hashSize : Nat} {tr : List (Record MapLog MapCall (BitVec 32))}
    (hrun : Exec logCall MapLog.admits ⟨hashNew hashSize, []⟩ tr s) :
    s.map.Represents s.entries := by
  apply hrun.invariant (fun (s : MapLog) => s.map.Represents s.entries)
    (represents_new hashSize)
  intro s call s' out h hadmits hcall
  cases call with
  | insert key value a =>
    obtain ⟨out, hout, hstate⟩ := Option.map_eq_some_iff.mp hcall
    obtain ⟨map, hinsert, rfl⟩ := Option.map_eq_some_iff.mp hout
    cases hstate
    exact h.insert hadmits hinsert
  | search key =>
    rw [logCall, hashmapCall, h.search_eq] at hcall
    cases hcall
    change s.map.Represents (s.entries.filter fun e => (s.map.heap e.addr).isSome)
    rw [List.filter_eq_self.mpr (live_of_represents h)]
    exact h
  | remove key =>
    obtain ⟨result, hresult, hstate⟩ := Option.map_eq_some_iff.mp hcall
    obtain ⟨removed, hremove, hpair⟩ := Option.map_eq_some_iff.mp hresult
    cases hpair
    cases hstate
    obtain ⟨hrepresents, hlive⟩ := remove_represents h hremove
    change removed.1.Represents (s.entries.filter fun e => (removed.1.heap e.addr).isSome)
    rw [hlive]
    exact hrepresents

/-- Two keys, one of which is long, are kept apart exactly when their hashes or their first 32
bytes differ. -/
theorem kept_apart_iff {hashSize : Nat} {tr : List (Record MapLog MapCall (BitVec 32))}
    (hrun : Exec logCall MapLog.admits ⟨hashNew hashSize, []⟩ tr s) (k k' : CString)
    (hlong : GLOBALNAME_LENGTH ≤ k.object.length ∨ GLOBALNAME_LENGTH ≤ k'.chars.length) :
    s.KeepsApart k k' ↔ ¬(hashString k.chars = hashString k'.chars ∧
      k.chars.take GLOBALNAME_LENGTH = k'.chars.take GLOBALNAME_LENGTH) := by
  have h := log_run hrun
  have hidentity : hashString k.chars = hashString k'.chars ∧
      k.chars.take GLOBALNAME_LENGTH = k'.chars.take GLOBALNAME_LENGTH ↔
      keyIdentity k.chars = keyIdentity k'.chars := by
    rw [keyIdentity, keyIdentity, Prod.mk.injEq]
  rw [hidentity]
  constructor
  · intro hkept hsame
    have hread : GLOBALNAME_LENGTH ≤ k.object.length := by
      rcases hlong with hk | hk'
      · exact hk
      · -- as many bytes as the long one has are the same in both
        have hlength := congrArg (fun identity => identity.2.length) hsame
        simp only [keyIdentity, List.length_take, Nat.min_eq_left hk'] at hlength
        rw [CString.object, List.length_append]
        omega
    obtain ⟨a, ha⟩ := Infinite.exists_notMem_finset (s.entries.map MapEntry.addr).toFinset
    have hfree : s.map.heap a = none := by
      by_contra hused
      obtain ⟨e, he, rfl⟩ := h.allocated a hused
      exact ha (List.mem_toFinset.mpr (List.mem_map_of_mem he))
    obtain ⟨value, hvalue⟩ : ∃ value, value ≠ foundValue s.entries k' := by
      by_cases hzero : foundValue s.entries k' = 0#32
      · exact ⟨1#32, by rw [hzero]; decide⟩
      · exact ⟨0#32, Ne.symm hzero⟩
    obtain ⟨map, hinsert⟩ := exists_hashInsert hread s.map value a
    have hsearch := hkept.1 value a map hfree hinsert
    rw [(h.insert hfree hinsert).search_eq, h.search_eq] at hsearch
    have htaken : MapEntry.sameKey k' ⟨a, k, value⟩ = true := decide_eq_true hsame
    rw [foundValue, List.find?_cons_of_pos htaken] at hsearch
    exact hvalue (Option.some.inj hsearch)
  · intro hapart
    constructor
    · intro value a map hfree hinsert
      have hother : ¬ MapEntry.sameKey k' ⟨a, k, value⟩ = true := fun htaken =>
        hapart (of_decide_eq_true htaken)
      rw [(h.insert hfree hinsert).search_eq, h.search_eq, foundValue,
        List.find?_cons_of_neg hother]
      rfl
    · intro map value hremove e he hkey
      have hother : ¬ e.sameKey k = true := by
        intro htaken
        apply hapart
        rw [← hkey]
        exact (of_decide_eq_true htaken).symm
      exact live_of_represents (remove_represents h hremove).1 e
        ((List.mem_eraseP_of_neg hother).mpr he)

/-! ## Two names that are taken for one -/

/-- 32 letters a, and `ab`. -/
def longName : CString := ⟨List.replicate 32 97#8 ++ [97#8, 98#8], [], by decide⟩

/-- 32 letters a, and `bQ`: 17 * 97 + 98 = 17 * 98 + 81. -/
def collidingName : CString :=
  ⟨List.replicate 32 97#8 ++ [98#8, 81#8], [], by decide⟩

/-- 32 letters b, and `ab`. -/
def otherName : CString := ⟨List.replicate 32 98#8 ++ [97#8, 98#8], [], by decide⟩

def collidingLog : MapLog :=
  ⟨(hashInsert (hashNew 9) collidingName 1 0).getD (hashNew 9), [⟨0, collidingName, 1⟩]⟩

theorem collidingLog_run :
    Exec logCall MapLog.admits ⟨hashNew 9, []⟩
      [⟨⟨hashNew 9, []⟩, .insert collidingName 1 0, [], collidingLog⟩] collidingLog :=
  .cons (i := MapCall.insert collidingName 1 0) rfl rfl .nil

theorem kept_apart_other : collidingLog.KeepsApart otherName collidingName ↔
    ¬(hashString otherName.chars = hashString collidingName.chars ∧
      otherName.chars.take GLOBALNAME_LENGTH = collidingName.chars.take GLOBALNAME_LENGTH) :=
  kept_apart_iff collidingLog_run otherName collidingName (.inr (by decide))

/-- An insertion under the one name hides the entry of the other, and a removal frees it. -/
theorem not_kept_apart :
    longName.chars ≠ collidingName.chars ∧
    hashSearch collidingLog.map collidingName = some 1 ∧
    (hashInsert collidingLog.map longName 2 1).bind (hashSearch · collidingName) = some 2 ∧
    (hashRemove collidingLog.map longName).map
      (fun out => (out.2, (out.1.heap 0).isSome)) = some (1, false) ∧
    ¬collidingLog.KeepsApart longName collidingName := by
  have hbefore : hashSearch collidingLog.map collidingName = some 1 := by decide +kernel
  have hafter : (hashInsert collidingLog.map longName 2 1).bind (hashSearch · collidingName) =
      some 2 := by decide +kernel
  refine ⟨by decide +kernel, hbefore, hafter, by decide +kernel, ?_⟩
  intro hkept
  obtain ⟨map, hinsert, hsearch⟩ := Option.bind_eq_some_iff.mp hafter
  have hsame := hkept.1 2 1 map rfl hinsert
  rw [hbefore, hsearch] at hsame
  exact absurd (Option.some.inj hsame) (by decide)

end Log

end NetgameFormal
