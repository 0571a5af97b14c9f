import NetgameFormal.LprotoCodec
import NetgameFormal.LprotoFilling

/-!
# Unpacking undoes packing

Packing goes through the keys of a protocol and writes one value after the
other, and it fills the tables of the message as it goes. What it writes for a
conforming message is decided by the message as it was; unpacking then reads the
same values at the same offsets.
-/

set_option autoImplicit false

namespace NetgameFormal

open Function

/-! ## What packing writes -/

/-- The values `vs` are read one after the other from `off` to `off'`. -/
def Reads (c : LprotoC) (buf : Memory) : List Scalar → Nat → Nat → Prop
  | [], off, off' => off' = off
  | v :: vs, off, off' =>
    ∃ n : Nat, c.read v.type buf off = ((n : Int), v) ∧ Reads c buf vs (off + n) off'

theorem Reads.append {c : LprotoC} {buf : Memory} {vs ws : List Scalar} {off mid off' : Nat}
    (h : Reads c buf vs off mid) (hlater : Reads c buf ws mid off') :
    Reads c buf (vs ++ ws) off off' := by
  induction vs generalizing off with
  | nil =>
    obtain rfl : mid = off := h
    exact hlater
  | cons v vs ih =>
    obtain ⟨n, hread, hrest⟩ := h
    exact ⟨n, hread, ih hrest⟩

theorem Reads.split {c : LprotoC} {buf : Memory} {vs ws : List Scalar} {off off' : Nat}
    (h : Reads c buf (vs ++ ws) off off') :
    ∃ mid, Reads c buf vs off mid ∧ Reads c buf ws mid off' := by
  induction vs generalizing off with
  | nil => exact ⟨off, rfl, h⟩
  | cons v vs ih =>
    obtain ⟨n, hread, hrest⟩ := h
    obtain ⟨mid, hfirst, hlater⟩ := ih hrest
    exact ⟨mid, ⟨n, hread, hfirst⟩, hlater⟩

/-- Between two states of the packing the values `vs` were written: as long as the buffer is not
full, nothing before them was touched and they can be read back. -/
structure Wrote (c : LprotoC) (st st' : PackState) (vs : List Scalar) : Prop where
  grows : st.sz ≤ st'.sz
  kept : st'.sz < BUFFER_MAX_LEN → ∀ i < st.sz, st'.mem i = st.mem i
  reads : st'.sz < BUFFER_MAX_LEN → ∀ buf : Memory,
    (∀ i, st.sz ≤ i → i < st'.sz → buf i = st'.mem i) → Reads c buf vs st.sz st'.sz

section Writing

variable {c : LprotoC} {st st' st'' : PackState} {vs ws : List Scalar}

theorem Wrote.refl : Wrote c st st [] :=
  ⟨le_rfl, fun _ _ _ => rfl, fun _ _ _ => rfl⟩

theorem Wrote.trans (h : Wrote c st st' vs) (hlater : Wrote c st' st'' ws) :
    Wrote c st st'' (vs ++ ws) := by
  have hg := h.grows
  have hg' := hlater.grows
  refine ⟨by omega, ?_, ?_⟩
  · intro hroom i hi
    rw [hlater.kept hroom i (by omega), h.kept (by omega) i hi]
  · intro hroom buf hbuf
    apply Reads.append
    · apply h.reads (by omega)
      intro i hle hlt
      rw [hbuf i hle (by omega), hlater.kept hroom i hlt]
    · apply hlater.reads hroom
      intro i hle hlt
      exact hbuf i (by omega) hlt

end Writing

/-- What packing the values `vs` comes to: they are all written, and the tables are then as in
`heap'`, or one of them is too large. It never raises. -/
inductive Packs (c : LprotoC) (st : PackState) (vs : List Scalar) (heap' : Heap) :
    Except LuaStop PackState → Prop
  | done {st' : PackState} : Wrote c st st' vs → st'.heap = heap' → Packs c st vs heap' (.ok st')
  | full {v : Scalar} {mem : Memory} {off : Nat} {code : Int} : v ∈ vs →
      BUFFER_MAX_LEN ≤ (c.write mem v off).2 → Packs c st vs heap' (.error (.returns code))

section Packing

variable {c : LprotoC} {holds : Scalar → Prop} {fields : Table Field} {heap heap' heap'' : Heap}
  {p : Nat} {st : PackState} {xs : List Visit}

theorem Packs.bind {vs ws : List Scalar} {res : Except LuaStop PackState}
    {f : PackState → Except LuaStop PackState} (h : Packs c st vs heap' res)
    (hlater : ∀ st', st'.heap = heap' → Packs c st' ws heap'' (f st')) :
    Packs c st (vs ++ ws) heap'' (res >>= f) := by
  cases h with
  | full hmem hlarge => exact .full (List.mem_append_left _ hmem) hlarge
  | @done st' hwrote hheap =>
    have hnext : Packs c st' ws heap'' (f st') := hlater st' hheap
    have hbind : (Except.ok st' >>= f : Except LuaStop PackState) = f st' := rfl
    rw [hbind]
    cases hf : f st' with
    | error stop =>
      rw [hf] at hnext
      cases hnext with
      | full hmem hlarge => exact .full (List.mem_append_right _ hmem) hlarge
    | ok st'' =>
      rw [hf] at hnext
      cases hnext with
      | done hwrote' hheap' => exact .done (hwrote.trans hwrote') hheap'

theorem packWrite_packs (hc : c.Lossless holds) {v : Scalar} (hv : holds v) (code : Int)
    (heap' : Heap) : Packs c st [v] heap' (packWrite c { st with heap := heap' } v code) := by
  unfold packWrite
  by_cases hlarge : BUFFER_MAX_LEN ≤ (c.write st.mem v st.sz).2
  · simp only [ge_iff_le, hlarge, if_true]
    exact .full List.mem_cons_self hlarge
  · simp only [ge_iff_le, hlarge, if_false]
    refine .done ⟨by simp, ?_, ?_⟩ rfl
    · intro hroom i hi
      exact hc.write_frame _ v _ i hv hroom (.inl hi)
    · intro hroom buf hbuf
      exact ⟨_, hc.read _ v _ buf hv hroom hbuf, rfl⟩

theorem packScalar_eq (c : LprotoC) (st : PackState) (t : Nat) (k : LuaString) (d : Scalar) :
    packScalar c st t k d =
      packWrite c { st with heap := st.heap.set t k (.scalar (fill d (st.heap t k))) }
        (fill d (st.heap t k)) (-3) := by
  unfold packScalar
  by_cases htype : (st.heap t k).luaType = d.luaType
  · have hcell := eq_fill_of_luaType htype
    have hset : st.heap.set t k (.scalar (fill d (st.heap t k))) = st.heap := by
      rw [Heap.set, ← hcell, update_eq_self, update_eq_self]
    simp only [ne_eq, htype, not_true_eq_false, if_false, hset]
    generalize fill d (st.heap t k) = v at hcell ⊢
    rw [hcell]
  · have hfill : fill d (st.heap t k) = d := by
      cases hx : st.heap t k with
      | scalar v =>
        refine if_neg ?_
        intro hsame
        rw [hx] at htype
        exact htype (Scalar.luaType_eq_iff.mpr hsame)
      | nil => rfl
      | list vs => rfl
      | other => rfl
    simp only [ne_eq, htype, not_false_eq_true, if_true, hfill, Heap.set, update_self]

/-- A visit that agrees packs the value of the message as it was. -/
theorem packScalar_packs (hc : c.Lossless holds) {x : Visit}
    (hst : st.heap = heap.visitAll xs) (hagree : Agrees heap (xs ++ [x]))
    (hv : holds (x.value heap)) :
    Packs c st [x.value heap] (heap.visitAll (xs ++ [x]))
      (packScalar c st x.table x.key x.default) := by
  have hvalue : fill x.default (st.heap x.table x.key) = x.value heap := by
    rw [hst]
    exact hagree.value_eq
  have hheap : st.heap.set x.table x.key (.scalar (x.value heap)) = heap.visitAll (xs ++ [x]) := by
    rw [visitAll_snoc, Heap.visit, hagree.value_eq, hst]
  rw [packScalar_eq, hvalue, hheap]
  exact packWrite_packs hc hv (-3) _

def recordValue (heap : Heap) (rd : ProtRecord) (v : Nat) (k : LuaString) : List Scalar :=
  match rd.fields.get k with
  | some d => [fill d (heap v k)]
  | none => []

def recordValues (heap : Heap) (rd : ProtRecord) (v : Nat) : List Scalar :=
  rd.keysort.flatMap (recordValue heap rd v)

/-- The values packed for a key of the message: for a list its length comes first. -/
def fieldValues (heap : Heap) (prot : Prot) (p : Nat) (key : LuaString) : List Scalar :=
  match prot.get key with
  | some (.scalar d) => [fill d (heap p key)]
  | some (.record rd) =>
    match heap p key with
    | .list vs => .int vs.length :: (LuaValue.list vs).records.flatMap (recordValues heap rd)
    | _ => []
  | _ => []

def bodyValues (heap : Heap) (prot : Prot) (p : Nat) : List Scalar :=
  prot.keysort.flatMap (fieldValues heap prot p)

theorem recordValue_some {rd : ProtRecord} {v : Nat} {k : LuaString} {d : Scalar}
    (hget : rd.fields.get k = some d) : recordValue heap rd v k = [fill d (heap v k)] := by
  rw [recordValue, hget]

theorem fieldValues_scalar {prot : Prot} {key : LuaString} {d : Scalar}
    (hget : prot.get key = some (.scalar d)) :
    fieldValues heap prot p key = [fill d (heap p key)] := by
  rw [fieldValues, hget]

theorem records_list (vs : List Nat) : (LuaValue.list (vs.map some)).records = vs := by
  simp [LuaValue.records]

theorem fieldValues_record {prot : Prot} {key : LuaString} {rd : ProtRecord} {vs : List Nat}
    (hget : prot.get key = some (.record rd)) (hlist : heap p key = .list (vs.map some)) :
    fieldValues heap prot p key = [.int vs.length] ++ vs.flatMap (recordValues heap rd) := by
  rw [fieldValues, hget]
  simp only [hlist, records_list, List.length_map, List.singleton_append]

theorem fieldVisits_scalar {prot : Prot} {key : LuaString} {d : Scalar}
    (hget : prot.get key = some (.scalar d)) : fieldVisits heap prot p key = [⟨p, key, d⟩] := by
  rw [fieldVisits, hget]

theorem fieldVisits_record {prot : Prot} {key : LuaString} {rd : ProtRecord} {vs : List Nat}
    (hget : prot.get key = some (.record rd)) (hlist : heap p key = .list (vs.map some)) :
    fieldVisits heap prot p key = vs.flatMap (recordVisits rd) := by
  rw [fieldVisits, hget]
  simp only [hlist, records_list]

theorem packRecord_packs (hc : c.Lossless holds) {rd : ProtRecord} {v : Nat} {ks : List LuaString}
    (hkeys : ∀ k ∈ ks, (rd.fields.get k).isSome) (hst : st.heap = heap.visitAll xs)
    (hagree : Agrees heap (xs ++ ks.flatMap (recordVisit rd v)))
    (hholds : ∀ x ∈ ks.flatMap (recordValue heap rd v), holds x) :
    Packs c st (ks.flatMap (recordValue heap rd v))
      (heap.visitAll (xs ++ ks.flatMap (recordVisit rd v))) (packRecord c rd v ks st) := by
  induction ks generalizing st xs with
  | nil => exact .done .refl (by simpa using hst)
  | cons k ks ih =>
    obtain ⟨d, hget⟩ := Option.isSome_iff_exists.mp (hkeys k List.mem_cons_self)
    have hvisit : recordVisit rd v k = [⟨v, k, d⟩] := by rw [recordVisit, hget]
    rw [List.flatMap_cons, recordValue_some hget] at hholds ⊢
    rw [List.flatMap_cons, hvisit] at hagree ⊢
    rw [← List.append_assoc] at hagree ⊢
    simp only [packRecord, hget]
    apply Packs.bind
    · exact packScalar_packs hc hst hagree.left (hholds _ List.mem_cons_self)
    · intro st' hst'
      apply ih
      · exact fun k' hk' => hkeys k' (List.mem_cons_of_mem k hk')
      · exact hst'
      · exact hagree
      · exact fun x hx => hholds x (List.mem_append_right _ hx)

theorem packList_packs (hc : c.Lossless holds) {rd : ProtRecord} {vs : List Nat}
    (hkeys : ∀ k ∈ rd.keysort, (rd.fields.get k).isSome) (hst : st.heap = heap.visitAll xs)
    (hagree : Agrees heap (xs ++ vs.flatMap (recordVisits rd)))
    (hholds : ∀ x ∈ vs.flatMap (recordValues heap rd), holds x) :
    Packs c st (vs.flatMap (recordValues heap rd))
      (heap.visitAll (xs ++ vs.flatMap (recordVisits rd))) (packList c rd (vs.map some) st) := by
  induction vs generalizing st xs with
  | nil => exact .done .refl (by simpa using hst)
  | cons v vs ih =>
    rw [List.flatMap_cons] at hholds ⊢
    rw [List.flatMap_cons, ← List.append_assoc] at hagree ⊢
    apply Packs.bind
    · apply packRecord_packs hc hkeys hst hagree.left
      exact fun x hx => hholds x (List.mem_append_left _ hx)
    · intro st' hst'
      apply ih hst' hagree
      exact fun x hx => hholds x (List.mem_append_right _ hx)

/-- `_keysort` is the name of what `initprot` adds; no field and no field of a record has it. -/
structure Unreserved (fields : Table Field) : Prop where
  field : fields.get KEYSORT = none
  record : ∀ k r, fields.get k = some (.record r) → r.get KEYSORT = none

theorem packFields_packs (hc : c.Lossless holds) (hu : Unreserved fields)
    (hconf : Conforms fields heap p) (front keys : List LuaString)
    (hkeys : (initTable fields).keysort = front ++ keys)
    (hst : st.heap = heap.visitAll (front.flatMap (fieldVisits heap (initTable fields) p)))
    (hholds : ∀ x ∈ keys.flatMap (fieldValues heap (initTable fields) p), holds x) :
    Packs c st (keys.flatMap (fieldValues heap (initTable fields) p))
      (heap.visitAll (bodyVisits heap (initTable fields) p))
      (packFields c (initTable fields) p keys st) := by
  induction keys generalizing st front with
  | nil =>
    rw [List.append_nil] at hkeys
    refine .done .refl ?_
    rw [bodyVisits, hkeys]
    exact hst
  | cons key keys ih =>
    have hagree := agrees_of_chains hconf.agree
    rw [bodyVisits, hkeys, List.flatMap_append, List.flatMap_cons, ← List.append_assoc] at hagree
    have hagree := hagree.left
    have hkey : key ∈ (initTable fields).keysort := by simp [hkeys]
    have hkeys' : (initTable fields).keysort = (front ++ [key]) ++ keys := by simp [hkeys]
    rw [List.flatMap_cons] at hholds ⊢
    have hrest := fun x hx => hholds x (List.mem_append_right _ hx)
    have hthis := fun x hx => hholds x (List.mem_append_left _ hx)
    have hnext : ∀ {st' : PackState}, st'.heap = heap.visitAll
        (front.flatMap (fieldVisits heap (initTable fields) p) ++
          fieldVisits heap (initTable fields) p key) →
        Packs c st' (keys.flatMap (fieldValues heap (initTable fields) p))
          (heap.visitAll (bodyVisits heap (initTable fields) p))
          (packFields c (initTable fields) p keys st') := by
      intro st' hst'
      refine ih (front ++ [key]) hkeys' ?_ hrest
      rw [hst', List.flatMap_append, List.flatMap_singleton]
    rcases initTable_get hu.field hkey with ⟨d, hfield, hget⟩ | ⟨r, hfield, hget⟩
    · rw [fieldValues_scalar hget] at hthis ⊢
      rw [fieldVisits_scalar hget] at hnext hagree
      simp only [packFields, hget]
      apply Packs.bind
      · exact packScalar_packs hc hst hagree (hthis _ List.mem_cons_self)
      · exact fun st' hst' => hnext hst'
    · obtain ⟨vs, hlist⟩ := hconf.lists key r hfield
      have hcell : st.heap p key = .list (vs.map some) := by
        rw [hst, visitAll_unvisited (hconf.kept front key keys r hkeys hfield), hlist]
      rw [fieldValues_record hget hlist] at hthis ⊢
      rw [fieldVisits_record hget hlist] at hnext hagree
      simp only [packFields, hget, hcell, List.length_map]
      rw [List.append_assoc]
      apply Packs.bind
      · exact packWrite_packs hc (hthis _ (by simp)) (-2) st.heap
      · intro st' hst'
        apply Packs.bind
        · apply packList_packs hc _ (hst'.trans hst) hagree
          · exact fun x hx => hthis x (List.mem_append_right _ hx)
          · exact fun k hk => (mem_initRecord (hu.record key r hfield)).mp hk
        · exact fun st'' hst'' => hnext hst''

end Packing

/-! ## What unpacking reads -/

/-- The record `v` with its declared fields only, those missing or of another type replaced. -/
def unpackedRecord (heap : Heap) (r : Table Scalar) (v : Nat) : UnpackedRecord :=
  fun k => (r.get k).map fun d => fill d (heap v k)

/-- The message `p` with its declared fields only, those missing or of another type replaced. -/
def unpackedTable (heap : Heap) (fields : Table Field) (p : Nat) : UnpackedTable :=
  fun key => (fields.get key).map fun
    | .scalar d => .scalar (fill d (heap p key))
    | .record r => .list ((heap p key).records.map (unpackedRecord heap r))

theorem eq_of_keyed {γ : Type} {keys : List LuaString} {q f : LuaString → Option γ}
    (hq : ∀ k, q k = if k ∈ keys then f k else none) (hf : ∀ k, k ∉ keys → f k = none) :
    q = f := by
  funext k
  rw [hq k]
  by_cases hk : k ∈ keys
  · rw [if_pos hk]
  · rw [if_neg hk, hf k hk]

section Unpacking

variable {c : LprotoC} {fields : Table Field} {heap : Heap} {p : Nat} {buf : Memory}
  {off off' : Nat}

theorem ittp_eq {rd : ProtRecord} {k : LuaString} {d : Scalar}
    (hget : rd.fields.get k = some d) : rd.ittp k = d.type := by
  rw [ProtRecord.ittp, hget]
  cases d <;> rfl

theorem unpackRead_eq {v : Scalar} {n : Nat} (hread : c.read v.type buf off = ((n : Int), v))
    (code : Int) : unpackRead c buf v.type off code = .ok (v, off + n) := by
  have hnonneg : ¬ (n : Int) < 0 := by omega
  simp only [unpackRead, hread, hnonneg, if_false, Int.toNat_natCast]

theorem unpackRecord_eq {rd : ProtRecord} {v : Nat} {ks : List LuaString}
    (temp : UnpackedRecord) (hkeys : ∀ k ∈ ks, (rd.fields.get k).isSome)
    (hreads : Reads c buf (ks.flatMap (recordValue heap rd v)) off off') :
    ∃ temp', unpackRecord c buf rd ks temp off = .ok (temp', off') ∧
      ∀ k, temp' k = if k ∈ ks then unpackedRecord heap rd.fields v k else temp k := by
  induction ks generalizing temp off with
  | nil =>
    obtain rfl : off' = off := hreads
    exact ⟨temp, rfl, fun k => by simp⟩
  | cons k ks ih =>
    obtain ⟨d, hget⟩ := Option.isSome_iff_exists.mp (hkeys k List.mem_cons_self)
    rw [List.flatMap_cons, recordValue_some hget] at hreads
    obtain ⟨n, hread, hrest⟩ := hreads
    obtain ⟨temp', hrun, htemp⟩ := ih (update temp k (some (fill d (heap v k))))
      (fun k' hk' => hkeys k' (List.mem_cons_of_mem k hk')) hrest
    refine ⟨temp', ?_, ?_⟩
    · have htype : rd.ittp k = (fill d (heap v k)).type := by
        rw [ittp_eq hget, fill_type]
      rw [unpackRecord, htype, unpackRead_eq hread]
      exact hrun
    · intro k'
      rw [htemp k']
      by_cases hmem : k' ∈ ks
      · simp only [hmem, List.mem_cons, or_true, if_true]
      · by_cases hk : k' = k
        · subst hk
          simp only [hmem, if_false, update_self, List.mem_cons, true_or, if_true, unpackedRecord,
            hget, Option.map_some]
        · simp only [hmem, if_false, update_of_ne hk, List.mem_cons, hk, or_self]

theorem unpackList_eq {r : Table Scalar} (hreserved : r.get KEYSORT = none) {vs : List Nat}
    (records : List UnpackedRecord)
    (hreads : Reads c buf (vs.flatMap (recordValues heap (initRecord r))) off off') :
    unpackList c buf (initRecord r) vs.length records off =
      .ok (records ++ vs.map (unpackedRecord heap r), off') := by
  induction vs generalizing records off with
  | nil =>
    obtain rfl : off' = off := hreads
    simp only [List.length_nil, unpackList, List.map_nil, List.append_nil]
  | cons v vs ih =>
    rw [List.flatMap_cons] at hreads
    obtain ⟨mid, hthis, hrest⟩ := hreads.split
    obtain ⟨temp, hrun, htemp⟩ := unpackRecord_eq (fun _ => none)
      (fun k hk => (mem_initRecord hreserved).mp hk) hthis
    have hrecord : temp = unpackedRecord heap r v := by
      apply eq_of_keyed htemp
      intro k hk
      rw [mem_initRecord hreserved, Option.not_isSome_iff_eq_none] at hk
      rw [unpackedRecord, initRecord, hk]
      rfl
    rw [List.length_cons, unpackList, hrun]
    have hnext := ih (records ++ [temp]) hrest
    rw [List.append_assoc, hrecord] at hnext
    rw [hrecord]
    exact hnext

theorem unpackField_eq (hu : Unreserved fields) (hconf : Conforms fields heap p)
    {key : LuaString} (hkey : key ∈ (initTable fields).keysort)
    (hreads : Reads c buf (fieldValues heap (initTable fields) p key) off off') :
    ∃ x, unpackedTable heap fields p key = some x ∧
      unpackField c buf (initTable fields) key off = .ok (x, off') := by
  rcases initTable_get hu.field hkey with ⟨d, hfield, hget⟩ | ⟨r, hfield, hget⟩
  · rw [fieldValues_scalar hget] at hreads
    obtain ⟨n, hread, rfl⟩ := hreads
    refine ⟨.scalar (fill d (heap p key)), by rw [unpackedTable, hfield]; rfl, ?_⟩
    simp only [unpackField, hget]
    rw [← fill_type d (heap p key), unpackRead_eq hread]
    rfl
  · obtain ⟨vs, hlist⟩ := hconf.lists key r hfield
    rw [fieldValues_record hget hlist] at hreads
    obtain ⟨n, hread, hlater⟩ := hreads
    refine ⟨.list (vs.map (unpackedRecord heap r)), ?_, ?_⟩
    · rw [unpackedTable, hfield]
      simp only [Option.map_some, hlist, records_list]
    · have hcount : unpackRead c buf .TINTEGER off (-3) = .ok (.int vs.length, off + n) :=
        unpackRead_eq hread (-3)
      have hrecords := unpackList_eq (hu.record key r hfield) [] hlater
      rw [List.nil_append] at hrecords
      simp only [unpackField, hget, hcount]
      calc _ = (unpackList c buf (initRecord r) vs.length [] (off + n) >>= fun q =>
            .ok (Unpacked.list q.1, q.2)) := rfl
        _ = .ok (.list (vs.map (unpackedRecord heap r)), off') := by rw [hrecords]; rfl

theorem unpackFields_eq (hu : Unreserved fields) (hconf : Conforms fields heap p)
    {keys : List LuaString} (q : UnpackedTable)
    (hkeys : ∀ k ∈ keys, k ∈ (initTable fields).keysort)
    (hreads : Reads c buf (keys.flatMap (fieldValues heap (initTable fields) p)) off off') :
    ∃ q', unpackFields c buf (initTable fields) keys q off = .ok (q', off') ∧
      ∀ k, q' k = if k ∈ keys then unpackedTable heap fields p k else q k := by
  induction keys generalizing q off with
  | nil =>
    obtain rfl : off' = off := hreads
    exact ⟨q, rfl, fun k => by simp⟩
  | cons key keys ih =>
    rw [List.flatMap_cons] at hreads
    obtain ⟨mid, hthis, hrest⟩ := hreads.split
    obtain ⟨x, hx, hfield⟩ := unpackField_eq hu hconf (hkeys key List.mem_cons_self) hthis
    obtain ⟨q', hrun, hq'⟩ := ih (update q key (some x))
      (fun k hk => hkeys k (List.mem_cons_of_mem key hk)) hrest
    refine ⟨q', by rw [unpackFields, hfield]; exact hrun, ?_⟩
    intro k
    rw [hq' k]
    by_cases hmem : k ∈ keys
    · simp only [hmem, List.mem_cons, or_true, if_true]
    · by_cases hk : k = key
      · subst hk
        simp only [hmem, if_false, update_self, List.mem_cons, true_or, if_true, hx]
      · simp only [hmem, if_false, update_of_ne hk, List.mem_cons, hk, or_self]

end Unpacking

/-! ## The round trip -/

section RoundTrip

variable {c : LprotoC} {holds : Scalar → Prop} {fields : Table Field} {heap : Heap} {p : Nat}

/-- The buffer when the body of a package is to be written. -/
def packHeader (c : LprotoC) (mem : Memory) (fd protId : Int) : Memory :=
  (c.write2byte (c.write2byte mem fd 2).1 protId 4).1

theorem pack_eq (hc : c.Lossless holds) {protDict : Int → Option Prot} {prot : Prot}
    {protId : Int} (hprot : protDict protId = some prot) (mem : Memory) (fd : Int) :
    pack c protDict heap mem fd protId p =
      (packFields c prot p prot.keysort ⟨heap, packHeader c mem fd protId, 6⟩) >>= fun st =>
        .ok (st.sz, (List.range st.sz).map (c.write2byte st.mem ((st.sz : Int) - 2) 0).1) := by
  simp only [pack, hc.write2byte_size, hprot, hc.newpack, packHeader]

/-- A buffer that holds what was packed has the header and the body in their places. -/
theorem Wrote.frame_reads (hc : c.Lossless holds) {mem : Memory} {fd protId : Int}
    (hfd : 0 ≤ fd ∧ fd < 65536) (hid : 0 ≤ protId ∧ protId < 65536) {st : PackState}
    {vs : List Scalar} (h : Wrote c ⟨heap, packHeader c mem fd protId, 6⟩ st vs)
    (hroom : st.sz < BUFFER_MAX_LEN) {buf : Memory}
    (hbuf : ∀ i < st.sz, buf i = (c.write2byte st.mem ((st.sz : Int) - 2) 0).1 i) :
    c.read2byte buf 0 = (2, (st.sz : Int) - 2) ∧ c.read2byte buf 2 = (2, fd) ∧
      c.read2byte buf 4 = (2, protId) ∧ Reads c buf vs 6 st.sz := by
  have hsz : 6 ≤ st.sz := h.grows
  have hlimit : BUFFER_MAX_LEN = 10240 := rfl
  have hbody : ∀ i, 2 ≤ i → i < st.sz → buf i = st.mem i := by
    intro i hle hlt
    rw [hbuf i hlt]
    exact hc.write2byte_frame _ _ _ i (.inr hle)
  have hheader : ∀ i, 2 ≤ i → i < 6 → buf i = packHeader c mem fd protId i := by
    intro i hle hlt
    rw [hbody i hle (by omega)]
    exact h.kept hroom i hlt
  refine ⟨?_, ?_, ?_, ?_⟩
  · apply hc.read2byte st.mem _ 0 buf (by omega) (by omega)
    intro i _ hlt
    exact hbuf i (by omega)
  · apply hc.read2byte mem fd 2 buf hfd.1 hfd.2
    intro i hle hlt
    rw [hheader i hle (by omega)]
    exact hc.write2byte_frame _ _ _ i (.inl hlt)
  · apply hc.read2byte (c.write2byte mem fd 2).1 protId 4 buf hid.1 hid.2
    intro i hle hlt
    exact hheader i (by omega) (by omega)
  · apply h.reads hroom
    intro i hle hlt
    have hle' : 6 ≤ i := hle
    exact hbody i (by omega) hlt

theorem unpack_eq {protDict : Int → Option (Table Field)} {protId fd : Int} {buf : Memory}
    {sz : Nat} (hprot : protDict protId = some fields) (hu : Unreserved fields)
    (hconf : Conforms fields heap p) (hroom : sz < BUFFER_MAX_LEN)
    (hfd : c.read2byte buf 2 = (2, fd)) (hid : c.read2byte buf 4 = (2, protId))
    (hbody : Reads c buf (bodyValues heap (initTable fields) p) 6 sz) :
    unpack c (initprot protDict) buf sz = .ok (fd, protId, unpackedTable heap fields p) := by
  obtain ⟨q, hrun, hq⟩ := unpackFields_eq hu hconf (fun _ => none) (fun k hk => hk) hbody
  have htable : q = unpackedTable heap fields p := by
    apply eq_of_keyed hq
    intro k hk
    rw [mem_initTable, Option.not_isSome_iff_eq_none] at hk
    rw [unpackedTable, hk]
    rfl
  have hfirst : unpackRead2byte c buf 2 = .ok (fd, 4) := by
    simp [unpackRead2byte, hfd]
  have hsecond : unpackRead2byte c buf 4 = .ok (protId, 6) := by
    simp [unpackRead2byte, hid]
  rw [unpack_of_header hroom hfirst hsecond, initprot_some hprot, ← htable]
  simp only [hrun]
  rfl

/-- `unpack` undoes `pack` on the message `p`: packing it does not raise, and is only given up for a
value as large as the buffer; a frame that fits is unpacked to the message with its defaults, and
its first two bytes are the length of what follows. -/
def RoundTrips (c : LprotoC) (protDict : Int → Option (Table Field)) (fields : Table Field)
    (heap : Heap) (mem : Memory) (fd protId : Int) (p : Nat) : Prop :=
  match pack c (initprot protDict) heap mem fd protId p with
  | .ok (sz, frame) => sz < BUFFER_MAX_LEN → frame.length = sz ∧
      ∀ buf : Memory, (∀ i < sz, frame[i]? = some (buf i)) →
        unpack c (initprot protDict) buf sz = .ok (fd, protId, unpackedTable heap fields p) ∧
          c.read2byte buf 0 = (2, (frame.length : Int) - 2)
  | .error .raises => False
  | .error (.returns _) => ∃ v ∈ bodyValues heap (initTable fields) p, ∃ mem off,
      BUFFER_MAX_LEN ≤ (c.write mem v off).2

theorem unpack_pack (hc : c.Lossless holds) {protDict : Int → Option (Table Field)}
    {fd protId : Int} (hprot : protDict protId = some fields) (hu : Unreserved fields)
    (hfd : 0 ≤ fd ∧ fd < 65536) (hid : 0 ≤ protId ∧ protId < 65536)
    (hconf : Conforms fields heap p)
    (hholds : ∀ v ∈ bodyValues heap (initTable fields) p, holds v) (mem : Memory) :
    RoundTrips c protDict fields heap mem fd protId p := by
  have hdict := initprot_some hprot
  have hbody : Packs c ⟨heap, packHeader c mem fd protId, 6⟩ _ _ _ :=
    packFields_packs hc hu hconf [] (initTable fields).keysort rfl rfl hholds
  rw [RoundTrips, pack_eq hc hdict]
  generalize packFields c (initTable fields) p (initTable fields).keysort
    ⟨heap, packHeader c mem fd protId, 6⟩ = res at hbody
  cases hbody with
  | full hmem hlarge => exact ⟨_, hmem, _, _, hlarge⟩
  | @done st hwrote hfilled =>
    intro hroom
    refine ⟨by simp, ?_⟩
    intro buf hbuf
    have hbytes : ∀ i < st.sz, buf i = (c.write2byte st.mem ((st.sz : Int) - 2) 0).1 i := by
      intro i hi
      have hat := hbuf i hi
      rw [List.getElem?_map, List.getElem?_range hi, Option.map_some] at hat
      exact (Option.some.inj hat).symm
    obtain ⟨hsize, hfirst, hsecond, hreads⟩ := hwrote.frame_reads hc hfd hid hroom hbytes
    refine ⟨unpack_eq hprot hu hconf hroom hfirst hsecond hreads, ?_⟩
    rw [hsize]
    simp

end RoundTrip

/-- `{members = {id = 0, title = "none"}, name = ""}` -/
def guildFields : Table Field :=
  ⟨[(luaString "members",
      .record ⟨[(luaString "id", .int 0), (luaString "title", .str (luaString "none"))],
        by decide⟩),
    (luaString "name", .scalar (.str []))], by decide⟩

/-- `{members = {{id = 7}, {id = "x", title = "b", rank = 1}}, name = 3}` -/
def guildMessage : Heap := fun t k =>
  if t = 0 then
    if k = luaString "members" then .list [some 1, some 2]
    else if k = luaString "name" then .scalar (.int 3) else .nil
  else if t = 1 then
    if k = luaString "id" then .scalar (.int 7) else .nil
  else if t = 2 then
    if k = luaString "id" then .scalar (.str (luaString "x"))
    else if k = luaString "title" then .scalar (.str (luaString "b"))
    else if k = luaString "rank" then .scalar (.int 1) else .nil
  else .nil

/-- `{l1 = {k = "d"}, l2 = {k = 5}}` -/
def orderedFields : Table Field :=
  ⟨[(luaString "l1", .record ⟨[(luaString "k", .str (luaString "d"))], by decide⟩),
    (luaString "l2", .record ⟨[(luaString "k", .int 5)], by decide⟩)], by decide⟩

/-- `{l1 = {r}, l2 = {r}}` with `r = {k = "x"}` -/
def sharedMessage : Heap := fun t k =>
  if t = 0 ∧ (k = luaString "l1" ∨ k = luaString "l2") then .list [some 1]
  else if t = 1 ∧ k = luaString "k" then .scalar (.str (luaString "x")) else .nil

theorem orderedFields_lists {k : LuaString} {r : Table Scalar}
    (hfield : orderedFields.get k = some (.record r)) :
    (k = luaString "l1" ∨ k = luaString "l2") ∧ r.get KEYSORT = none := by
  have hmem := Table.mem_of_get hfield
  simp only [orderedFields, List.mem_cons, Prod.mk.injEq, Field.record.injEq, List.not_mem_nil,
    or_false] at hmem
  rcases hmem with ⟨rfl, rfl⟩ | ⟨rfl, rfl⟩
  · exact ⟨.inl rfl, Option.not_isSome_iff_eq_none.mp (by decide)⟩
  · exact ⟨.inr rfl, Option.not_isSome_iff_eq_none.mp (by decide)⟩

/-- What `l1` leaves in the shared record is a string still, and `l2` takes its default. -/
theorem sharedMessage_conforms : Conforms orderedFields sharedMessage 0 := by
  have hvisits : bodyVisits sharedMessage (initTable orderedFields) 0 =
      [⟨1, luaString "k", .str (luaString "d")⟩, ⟨1, luaString "k", .int 5⟩] := by decide
  refine ⟨?_, ?_, ?_⟩
  · intro k r hfield
    refine ⟨[1], ?_⟩
    rcases (orderedFields_lists hfield).1 with rfl | rfl
    · decide
    · decide
  · intro t k
    rw [hvisits]
    by_cases hcell : 1 = t ∧ luaString "k" = k
    · obtain ⟨rfl, rfl⟩ := hcell
      have hone : Harmless (sharedMessage 1 (luaString "k")) (.str (luaString "d")) (.int 5) := by
        decide
      simpa [defaultsAt] using hone
    · simp [defaultsAt, hcell]
  · intro front k back r hkeys _
    apply List.eq_nil_iff_forall_not_mem.mpr
    intro d hd
    have hmem : (⟨0, k, d⟩ : Visit) ∈ bodyVisits sharedMessage (initTable orderedFields) 0 := by
      rw [bodyVisits, hkeys, List.flatMap_append]
      exact List.mem_append_left _ (mem_defaultsAt.mp hd)
    simp [hvisits] at hmem

theorem unpack_pack_guild :
    RoundTrips lprotoBytes (oneProt 1 guildFields) guildFields guildMessage (fun _ => 0) 5 1 0 ∧
      RoundTrips lprotoBytes (oneProt 1 orderedFields) orderedFields sharedMessage (fun _ => 0)
        5 1 0 := by
  have hmembers : ∀ k r, guildFields.get k = some (.record r) →
      k = luaString "members" ∧ r.get KEYSORT = none := by
    intro k r hfield
    have hmem := Table.mem_of_get hfield
    simp only [guildFields, List.mem_cons, Prod.mk.injEq, Field.record.injEq, reduceCtorEq,
      and_false, List.not_mem_nil, or_false] at hmem
    obtain ⟨hk, rfl⟩ := hmem
    exact ⟨hk, Option.not_isSome_iff_eq_none.mp (by decide)⟩
  constructor
  · apply unpack_pack lprotoBytes_lossless rfl
    · refine ⟨Option.not_isSome_iff_eq_none.mp (by decide), ?_⟩
      exact fun k r hfield => (hmembers k r hfield).2
    · decide
    · decide
    · apply Conforms.of_owned
      · intro k r hfield
        obtain ⟨rfl, -⟩ := hmembers k r hfield
        exact ⟨[1, 2], rfl, by decide⟩
      · intro k k' r r' _ hfield hfield' _ _
        rw [(hmembers k r hfield).1, (hmembers k' r' hfield').1]
    · decide
  · apply unpack_pack lprotoBytes_lossless rfl _ _ _ sharedMessage_conforms
    · decide
    · refine ⟨Option.not_isSome_iff_eq_none.mp (by decide), ?_⟩
      exact fun k r hfield => (orderedFields_lists hfield).2
    · decide
    · decide

/-! ## Where the round trip fails -/

/-- The field `k` of the first record that a table has under `key`. -/
def firstRecord (key k : LuaString) (q : UnpackedTable) : Option Scalar :=
  match q key with
  | some (.list (record :: _)) => record k
  | _ => none

theorem not_roundTrips {c : LprotoC} {protDict : Int → Option (Table Field)}
    {fields : Table Field} {heap : Heap} {mem : Memory} {fd protId : Int} {p sz : Nat}
    {frame : List Byte} (key k : LuaString)
    (hpack : pack c (initprot protDict) heap mem fd protId p = .ok (sz, frame))
    (hroom : sz < BUFFER_MAX_LEN)
    (hfield : ((unpack c (initprot protDict) (holding frame) sz).toOption.bind
      fun res => firstRecord key k res.2.2) ≠ firstRecord key k (unpackedTable heap fields p)) :
    ¬ RoundTrips c protDict fields heap mem fd protId p := by
  intro h
  rw [RoundTrips, hpack] at h
  obtain ⟨hlength, hbuf⟩ := h hroom
  have hbytes : ∀ i < sz, frame[i]? = some (holding frame i) := by
    intro i hi
    have hlt : i < frame.length := by omega
    rw [holding, List.getD_eq_getElem?_getD, List.getElem?_eq_getElem hlt, Option.getD_some]
  apply hfield
  rw [(hbuf _ hbytes).1]
  rfl

/-- `{list = {_keysort = 7, a = 1}}` -/
def reservedFields : Table Field :=
  ⟨[(luaString "list",
      .record ⟨[(KEYSORT, .int 7), (luaString "a", .int 1)], by decide⟩)], by decide⟩

/-- `{list = {{_keysort = 8, a = 2}}}` -/
def reservedMessage : Heap := fun t k =>
  if t = 0 ∧ k = luaString "list" then .list [some 1]
  else if t = 1 ∧ k = KEYSORT then .scalar (.int 8)
  else if t = 1 ∧ k = luaString "a" then .scalar (.int 2) else .nil

/-- `{l1 = {k = 5}, l2 = {k = "d"}}` -/
def sharedFields : Table Field :=
  ⟨[(luaString "l1", .record ⟨[(luaString "k", .int 5)], by decide⟩),
    (luaString "l2", .record ⟨[(luaString "k", .str (luaString "d"))], by decide⟩)], by decide⟩

/-- `{members = {1}}` -/
def numberMessage : Heap := fun t k =>
  if t = 0 ∧ k = luaString "members" then .list [none] else .nil

/-- A field `_keysort` of a record is not sent, a record in two lists is filled for the first before
it is written for the second, and packing raises on a list of numbers. -/
theorem unpack_pack_loses :
    lprotoBytes.Lossless Representable ∧
      ¬ RoundTrips lprotoBytes (oneProt 1 reservedFields) reservedFields reservedMessage
        (fun _ => 0) 5 1 0 ∧
      ¬ RoundTrips lprotoBytes (oneProt 1 sharedFields) sharedFields sharedMessage
        (fun _ => 0) 5 1 0 ∧
      pack lprotoBytes (initprot (oneProt 1 guildFields)) numberMessage (fun _ => 0) 5 1 0 =
        .error .raises := by
  refine ⟨lprotoBytes_lossless, ?_, ?_, rfl⟩
  · apply not_roundTrips (luaString "list") KEYSORT rfl
    · decide +kernel
    · decide +kernel
  · apply not_roundTrips (luaString "l2") (luaString "k") rfl
    · decide +kernel
    · decide +kernel

end NetgameFormal
