import NetgameFormal.Gate
import NetgameFormal.LprotoCodec

/-!
# Unpacking a frame from outside

What a frame says decides how far `unpack` reads: the dictionary lays out the
fields one behind the other, with counts and lengths taken from the frame. The
layout is a relation of its own; the decoder gets through it, stops at a field
that cannot be read, or raises.
-/

set_option autoImplicit false

namespace NetgameFormal

/-! ## Layouts -/

/-- A field in the buffer: its offset and its size. -/
abbrev Span := Nat × Nat

/-- A part of a layout that starts at an offset: the fields in it and the offset behind them. -/
abbrev Extent := Nat → List Span → Nat → Prop

def Within (sz : Nat) (spans : List Span) : Prop := ∀ s ∈ spans, s.1 + s.2 ≤ sz

instance (sz : Nat) (spans : List Span) : Decidable (Within sz spans) :=
  inferInstanceAs (Decidable (∀ s ∈ spans, s.1 + s.2 ≤ sz))

/-- One field, which a call reads with the result `ret`. -/
def Consumes (ret : Nat → Int) : Extent := fun off spans off' =>
  0 ≤ ret off ∧ spans = [(off, (ret off).toNat)] ∧ off' = off + (ret off).toNat

def Extent.andThen (R S : Extent) : Extent := fun off spans off' =>
  ∃ s mid t, R off s mid ∧ S mid t off' ∧ spans = s ++ t

/-- The parts of all members of a list, one behind the other. -/
def Spans {α : Type} (R : α → Extent) : List α → Extent
  | [] => fun off spans off' => spans = [] ∧ off' = off
  | a :: l => (R a).andThen (Spans R l)

def Extent.Fixed (R : Extent) : Prop :=
  ∀ off s m s' m', R off s m → R off s' m' → s = s' ∧ m = m'

theorem consumes_fixed (ret : Nat → Int) : (Consumes ret).Fixed := by
  intro off s m s' m' h h'
  exact ⟨h.2.1.trans h'.2.1.symm, h.2.2.trans h'.2.2.symm⟩

theorem Extent.Fixed.andThen {R S : Extent} (hR : R.Fixed) (hS : S.Fixed) :
    (R.andThen S).Fixed := by
  intro off s m s' m' h h'
  obtain ⟨a, mid, b, hfirst, hsecond, rfl⟩ := h
  obtain ⟨a', mid', b', hfirst', hsecond', rfl⟩ := h'
  obtain ⟨rfl, rfl⟩ := hR off _ _ _ _ hfirst hfirst'
  obtain ⟨rfl, rfl⟩ := hS mid _ _ _ _ hsecond hsecond'
  exact ⟨rfl, rfl⟩

theorem Spans.fixed {α : Type} {R : α → Extent} (hR : ∀ a, (R a).Fixed) (l : List α) :
    (Spans R l).Fixed := by
  induction l with
  | nil =>
    intro off s m s' m' h h'
    exact ⟨h.1.trans h'.1.symm, h.2.trans h'.2.symm⟩
  | cons a l ih => exact (hR a).andThen ih

section Layout

variable (c : LprotoC) (mem : Memory)

def countAt (off : Nat) : Int :=
  match (c.read .TINTEGER mem off).2 with
  | .int n => n
  | .str _ => 0

def RecordSpans (rd : ProtRecord) : Extent :=
  Spans (fun k => Consumes fun off => (c.read (rd.ittp k) mem off).1) rd.keysort

def ListSpans (rd : ProtRecord) (n : Nat) : Extent :=
  Spans (fun _ : Unit => RecordSpans c mem rd) (List.replicate n ())

def FieldSpans (prot : Prot) (key : LuaString) : Extent := fun off spans off' =>
  match prot.get key with
  | some (.scalar d) => Consumes (fun off => (c.read d.type mem off).1) off spans off'
  | some (.record rd) =>
    ((Consumes fun off => (c.read .TINTEGER mem off).1).andThen
      (ListSpans c mem rd (countAt c mem off).toNat)) off spans off'
  | some (.keys _) =>
    Consumes (fun off => (c.read .TINTEGER mem off).1) off spans off' ∧ countAt c mem off < 1
  | none => False

/-- A list under `_keysort` that is not empty. -/
def NamesAt (prot : Prot) (key : LuaString) (off : Nat) : Prop :=
  (∃ names, prot.get key = some (.keys names)) ∧ 0 ≤ (c.read .TINTEGER mem off).1 ∧
    1 ≤ countAt c mem off

def ReachesNames (prot : Prot) : List LuaString → Nat → Prop
  | [], _ => False
  | key :: keys, off => NamesAt c mem prot key off ∨
      ∃ spans mid, FieldSpans c mem prot key off spans mid ∧ ReachesNames prot keys mid

/-- The two numbers behind the size. -/
def HeaderSpans : Extent :=
  (Consumes fun off => (c.read2byte mem off).1).andThen
    (Consumes fun off => (c.read2byte mem off).1)

def headerProtId : Int := (c.read2byte mem (2 + (c.read2byte mem 2).1.toNat)).2

end Layout

section Fixed

variable {c : LprotoC} {mem : Memory}

theorem recordSpans_fixed (rd : ProtRecord) : (RecordSpans c mem rd).Fixed :=
  Spans.fixed (fun _ => consumes_fixed _) _

theorem listSpans_fixed (rd : ProtRecord) (n : Nat) : (ListSpans c mem rd n).Fixed :=
  Spans.fixed (fun _ => recordSpans_fixed rd) _

theorem fieldSpans_scalar {prot : Prot} {key : LuaString} {d : Scalar}
    (hget : prot.get key = some (.scalar d)) (off : Nat) :
    FieldSpans c mem prot key off = Consumes (fun off => (c.read d.type mem off).1) off := by
  funext spans off'
  rw [FieldSpans, hget]

theorem fieldSpans_record {prot : Prot} {key : LuaString} {rd : ProtRecord}
    (hget : prot.get key = some (.record rd)) (off : Nat) :
    FieldSpans c mem prot key off =
      (Consumes fun off => (c.read .TINTEGER mem off).1).andThen
        (ListSpans c mem rd (countAt c mem off).toNat) off := by
  funext spans off'
  rw [FieldSpans, hget]

theorem fieldSpans_keys {prot : Prot} {key : LuaString} {names : List LuaString}
    (hget : prot.get key = some (.keys names)) (off : Nat) :
    FieldSpans c mem prot key off = fun spans off' =>
      Consumes (fun off => (c.read .TINTEGER mem off).1) off spans off' ∧
        countAt c mem off < 1 := by
  funext spans off'
  rw [FieldSpans, hget]

theorem fieldSpans_fixed (prot : Prot) (key : LuaString) :
    (FieldSpans c mem prot key).Fixed := by
  intro off s m s' m' h h'
  cases hget : prot.get key with
  | none =>
    rw [FieldSpans, hget] at h
    cases h
  | some value =>
    cases value with
    | scalar d =>
      rw [fieldSpans_scalar hget] at h h'
      exact consumes_fixed _ off s m s' m' h h'
    | record rd =>
      rw [fieldSpans_record hget] at h h'
      exact (consumes_fixed _).andThen (listSpans_fixed rd _) off s m s' m' h h'
    | keys names =>
      rw [fieldSpans_keys hget] at h h'
      exact consumes_fixed _ off s m s' m' h.1 h'.1

end Fixed

/-! ## The decoder goes through the layout -/

/-- A part of the decoder against its layout: it returns where the layout ends, a negative code
where there is no layout, and raises where `raises` says so. -/
def Decodes {α : Type} (res : Except LuaStop (α × Nat)) (R : List Span → Nat → Prop)
    (raises : Prop) : Prop :=
  match res with
  | .ok (_, off) => (∃ spans, R spans off) ∧ ¬ raises
  | .error (.returns code) => code < 0 ∧ (∀ spans off, ¬ R spans off) ∧ ¬ raises
  | .error .raises => raises

section Decoding

variable {α β : Type} {res : Except LuaStop (α × Nat)} {R S : Extent} {off : Nat}

theorem Decodes.bind {f : α × Nat → Except LuaStop (β × Nat)} {A : Prop} {B : Nat → Prop}
    (hR : R.Fixed) (h : Decodes res (R off) A)
    (hlater : ∀ v mid, res = .ok (v, mid) → Decodes (f (v, mid)) (S mid) (B mid)) :
    Decodes (res >>= f) (R.andThen S off) (A ∨ ∃ s mid, R off s mid ∧ B mid) := by
  cases res with
  | error stop =>
    cases stop with
    | raises => exact .inl h
    | returns code =>
      obtain ⟨hcode, hnone, hA⟩ := h
      refine ⟨hcode, ?_, ?_⟩
      · intro spans off' hboth
        obtain ⟨s, mid, t, hfirst, -, -⟩ := hboth
        exact hnone s mid hfirst
      · intro hraises
        rcases hraises with hraises | ⟨s, mid, hfirst, -⟩
        · exact hA hraises
        · exact hnone s mid hfirst
  | ok out =>
    obtain ⟨v, mid⟩ := out
    obtain ⟨⟨s, hfirst⟩, hA⟩ := h
    have hnext := hlater v mid rfl
    have hbind : (Except.ok (v, mid) >>= f : Except LuaStop (β × Nat)) = f (v, mid) := rfl
    have hraises : (A ∨ ∃ s mid, R off s mid ∧ B mid) → B mid := by
      intro hcase
      rcases hcase with hcase | ⟨s', mid', hfirst', hB⟩
      · exact absurd hcase hA
      · obtain ⟨-, rfl⟩ := hR off _ _ _ _ hfirst hfirst'
        exact hB
    rw [hbind]
    cases hf : f (v, mid) with
    | ok out =>
      obtain ⟨w, off'⟩ := out
      rw [hf] at hnext
      obtain ⟨⟨t, hsecond⟩, hB⟩ := hnext
      exact ⟨⟨s ++ t, s, mid, t, hfirst, hsecond, rfl⟩, fun hcase => hB (hraises hcase)⟩
    | error stop =>
      rw [hf] at hnext
      cases stop with
      | raises => exact .inr ⟨s, mid, hfirst, hnext⟩
      | returns code =>
        obtain ⟨hcode, hnone, hB⟩ := hnext
        refine ⟨hcode, ?_, fun hcase => hB (hraises hcase)⟩
        intro spans off' hboth
        obtain ⟨s', mid', t, hfirst', hsecond, -⟩ := hboth
        obtain ⟨-, rfl⟩ := hR off _ _ _ _ hfirst hfirst'
        exact hnone t off' hsecond

theorem Decodes.congr {Q : List Span → Nat → Prop} {A B : Prop}
    (h : Decodes res Q A) (hiff : A ↔ B) : Decodes res Q B := by
  rw [propext hiff] at h
  exact h

theorem Decodes.bind_quiet {f : α × Nat → Except LuaStop (β × Nat)}
    (hR : R.Fixed) (h : Decodes res (R off) False)
    (hlater : ∀ v mid, res = .ok (v, mid) → Decodes (f (v, mid)) (S mid) False) :
    Decodes (res >>= f) (R.andThen S off) False :=
  (h.bind (B := fun _ => False) hR hlater).congr (by simp)

theorem Decodes.map {Q : List Span → Nat → Prop} {A : Prop} (h : Decodes res Q A) (g : α → β) :
    Decodes (res >>= fun out => .ok (g out.1, out.2)) Q A := by
  cases res with
  | ok out => exact h
  | error stop => cases stop <;> exact h

end Decoding

/-- The reads of the C module return values of the type they are asked for. -/
def LprotoC.Typed (c : LprotoC) : Prop :=
  ∀ tp mem off, 0 ≤ (c.read tp mem off).1 → (c.read tp mem off).2.type = tp

section Unpack

variable {c : LprotoC} {mem : Memory} {off : Nat}

theorem unpackRead_decodes (tp : ScalarType) {code : Int} (hcode : code < 0) :
    Decodes (unpackRead c mem tp off code) (Consumes (fun off => (c.read tp mem off).1) off)
      False := by
  by_cases hret : (c.read tp mem off).1 < 0
  · simp only [unpackRead, hret, if_true]
    refine ⟨hcode, ?_, not_false⟩
    intro spans off' h
    exact absurd h.1 (not_le.mpr hret)
  · simp only [unpackRead, hret, if_false]
    exact ⟨⟨_, not_lt.mp hret, rfl, rfl⟩, not_false⟩

theorem unpackRecord_decodes (rd : ProtRecord) (ks : List LuaString) (temp : UnpackedRecord) :
    Decodes (unpackRecord c mem rd ks temp off)
      (Spans (fun k => Consumes fun off => (c.read (rd.ittp k) mem off).1) ks off) False := by
  induction ks generalizing temp off with
  | nil => exact ⟨⟨[], rfl, rfl⟩, not_false⟩
  | cons k ks ih =>
    apply Decodes.bind_quiet (consumes_fixed _)
    · exact unpackRead_decodes _ (by decide)
    · intro v mid _
      exact ih _

theorem unpackList_decodes (rd : ProtRecord) (n : Nat) (records : List UnpackedRecord) :
    Decodes (unpackList c mem rd n records off) (ListSpans c mem rd n off) False := by
  induction n generalizing records off with
  | zero => exact ⟨⟨[], rfl, rfl⟩, not_false⟩
  | succ n ih =>
    apply Decodes.bind_quiet (recordSpans_fixed rd)
    · exact unpackRecord_decodes rd rd.keysort _
    · intro temp mid _
      exact ih _

theorem unpackRead_ok {tp : ScalarType} {code : Int} {v : Scalar} {mid : Nat}
    (h : unpackRead c mem tp off code = .ok (v, mid)) :
    0 ≤ (c.read tp mem off).1 ∧ v = (c.read tp mem off).2 := by
  by_cases hret : (c.read tp mem off).1 < 0
  · simp only [unpackRead, hret, if_true] at h
    cases h
  · simp only [unpackRead, hret, if_false] at h
    cases h
    exact ⟨by omega, rfl⟩

theorem unpackRead_count (hc : c.Typed) {code : Int} {v : Scalar} {mid : Nat}
    (h : unpackRead c mem .TINTEGER off code = .ok (v, mid)) :
    0 ≤ (c.read .TINTEGER mem off).1 ∧ v = .int (countAt c mem off) := by
  obtain ⟨hret, rfl⟩ := unpackRead_ok h
  refine ⟨hret, ?_⟩
  have htype := hc .TINTEGER mem off hret
  unfold countAt
  cases hv : (c.read .TINTEGER mem off).2 with
  | int n => rfl
  | str s =>
    rw [hv] at htype
    cases htype

theorem namesAt_get {prot : Prot} {key : LuaString} {value : DictValue}
    (hget : prot.get key = some value) (h : NamesAt c mem prot key off) :
    value = .keys prot.keysort := by
  obtain ⟨⟨names, hnames⟩, -⟩ := h
  unfold Prot.get at hget hnames
  by_cases hkey : key = KEYSORT
  · rw [if_pos hkey] at hget
    exact (Option.some.inj hget).symm
  · rw [if_neg hkey] at hnames
    cases hfield : prot.fields.get key with
    | none =>
      rw [hfield] at hnames
      cases hnames
    | some field =>
      rw [hfield] at hnames
      cases field <;> cases hnames

/-- The array of names: an empty list is skipped, another raises. -/
theorem unpackNames_decodes (hc : c.Typed) {prot : Prot} {key : LuaString}
    {names : List LuaString} (hget : prot.get key = some (.keys names)) :
    Decodes (unpackField c mem prot key off) (FieldSpans c mem prot key off)
      (NamesAt c mem prot key off) := by
  rw [fieldSpans_keys hget]
  have hdecodes : Decodes (unpackRead c mem .TINTEGER off (-3)) _ _ :=
    unpackRead_decodes .TINTEGER (by decide)
  simp only [unpackField, hget]
  cases hread : unpackRead c mem .TINTEGER off (-3) with
  | error stop =>
    rw [hread] at hdecodes
    cases stop with
    | raises => cases hdecodes
    | returns code =>
      obtain ⟨hcode, hnone, -⟩ := hdecodes
      refine ⟨hcode, fun spans off' h => hnone spans off' h.1, ?_⟩
      intro h
      exact hnone _ _ ⟨h.2.1, rfl, rfl⟩
  | ok out =>
    obtain ⟨n, mid⟩ := out
    obtain ⟨hret, rfl⟩ := unpackRead_count hc hread
    rw [hread] at hdecodes
    obtain ⟨⟨spans, hconsumes⟩, -⟩ := hdecodes
    by_cases hcount : countAt c mem off ≥ 1
    · have hraise : Decodes (Except.error LuaStop.raises : Except LuaStop (Unpacked × Nat))
          (fun spans off' => Consumes (fun off => (c.read .TINTEGER mem off).1) off spans off' ∧
            countAt c mem off < 1) (NamesAt c mem prot key off) :=
        ⟨⟨names, hget⟩, hret, hcount⟩
      simpa only [bind, Except.bind, hcount, if_true] using hraise
    · have hempty : Decodes (Except.ok (Unpacked.list [], mid))
          (fun spans off' => Consumes (fun off => (c.read .TINTEGER mem off).1) off spans off' ∧
            countAt c mem off < 1) (NamesAt c mem prot key off) :=
        ⟨⟨spans, hconsumes, by omega⟩, fun h => hcount h.2.2⟩
      simpa only [bind, Except.bind, hcount, if_false] using hempty

theorem unpackField_decodes (hc : c.Typed) {prot : Prot} {key : LuaString}
    (hkey : prot.get key ≠ none) :
    Decodes (unpackField c mem prot key off) (FieldSpans c mem prot key off)
      (NamesAt c mem prot key off) := by
  cases hget : prot.get key with
  | none => exact absurd hget hkey
  | some value =>
    cases value with
    | scalar d =>
      have hquiet : ¬ NamesAt c mem prot key off := fun h => by cases namesAt_get hget h
      rw [fieldSpans_scalar hget]
      simp only [unpackField, hget]
      apply ((unpackRead_decodes d.type (by decide)).map Unpacked.scalar).congr
      exact (iff_false_intro hquiet).symm
    | record rd =>
      have hquiet : ¬ NamesAt c mem prot key off := fun h => by cases namesAt_get hget h
      rw [fieldSpans_record hget]
      simp only [unpackField, hget]
      apply Decodes.congr _ (iff_false_intro hquiet).symm
      apply Decodes.bind_quiet (consumes_fixed _)
      · exact unpackRead_decodes .TINTEGER (by decide)
      · intro n mid hread
        obtain ⟨-, rfl⟩ := unpackRead_count hc hread
        exact (unpackList_decodes rd _ []).map Unpacked.list
    | keys names => exact unpackNames_decodes hc hget

theorem unpackFields_decodes (hc : c.Typed) {prot : Prot} {keys : List LuaString}
    (hkeys : ∀ key ∈ keys, prot.get key ≠ none) (q : UnpackedTable) :
    Decodes (unpackFields c mem prot keys q off) (Spans (FieldSpans c mem prot) keys off)
      (ReachesNames c mem prot keys off) := by
  induction keys generalizing q off with
  | nil => exact ⟨⟨[], rfl, rfl⟩, not_false⟩
  | cons key keys ih =>
    apply Decodes.bind (fieldSpans_fixed prot key)
    · exact unpackField_decodes hc (hkeys key List.mem_cons_self)
    · intro v mid _
      exact ih (fun k hk => hkeys k (List.mem_cons_of_mem key hk)) _

end Unpack

/-! ## Which frames are safe -/

/-- `unpack` raises no error; it returns 0 only for a protocol of the dictionary, every field of
which lies in the first `sz` bytes, and otherwise a negative code. -/
def UnpackSafe (c : LprotoC) (protDict : Int → Option (Table Field)) (mem : Memory) (sz : Nat) :
    Prop :=
  match unpack c (initprot protDict) mem sz with
  | .ok (_, protId, _) => ∃ fields, protDict protId = some fields ∧ ∃ header body hoff off,
      HeaderSpans c mem 2 header hoff ∧
        Spans (FieldSpans c mem (initTable fields)) (initTable fields).keysort hoff body off ∧
        Within sz (header ++ body)
  | .error (.returns code) => code < 0
  | .error .raises => False

/-- A frame whose two numbers, if they can be read, name a protocol of the dictionary that lays
out nothing beyond `sz`, and for which no list is found under `_keysort`. -/
def Intact (c : LprotoC) (protDict : Int → Option (Table Field)) (mem : Memory) (sz : Nat) :
    Prop :=
  ∀ header hoff, HeaderSpans c mem 2 header hoff →
    ∃ fields, protDict (headerProtId c mem) = some fields ∧
      ¬ ReachesNames c mem (initTable fields) (initTable fields).keysort hoff ∧
      ∀ body off, Spans (FieldSpans c mem (initTable fields)) (initTable fields).keysort hoff
        body off → Within sz (header ++ body)

section Safety

variable {c : LprotoC} {mem : Memory} {protDict : Int → Option (Table Field)} {sz : Nat}

theorem unpack_no_header (hsz : sz < BUFFER_MAX_LEN)
    (hnone : ∀ header hoff, ¬ HeaderSpans c mem 2 header hoff) (dict : Int → Option Prot) :
    unpack c dict mem sz = .error (.returns (-2)) := by
  have hfits : ¬ sz ≥ BUFFER_MAX_LEN := not_le.mpr hsz
  rw [unpack, if_neg hfits]
  by_cases hfirst : (c.read2byte mem 2).1 < 0
  · simp only [unpackRead2byte, hfirst, if_true]
    rfl
  · by_cases hsecond : (c.read2byte mem (2 + (c.read2byte mem 2).1.toNat)).1 < 0
    · simp only [unpackRead2byte, hfirst, if_false, bind, Except.bind, hsecond, if_true]
    · have hheader : HeaderSpans c mem 2 _ _ :=
        ⟨_, _, _, ⟨not_lt.mp hfirst, rfl, rfl⟩, ⟨not_lt.mp hsecond, rfl, rfl⟩, rfl⟩
      exact absurd hheader (hnone _ _)

theorem unpack_header (hsz : sz < BUFFER_MAX_LEN) {header : List Span} {hoff : Nat}
    (h : HeaderSpans c mem 2 header hoff) (dict : Int → Option Prot) :
    unpack c dict mem sz = match dict (headerProtId c mem) with
      | none => .error .raises
      | some prot =>
        unpackFields c mem prot prot.keysort (fun _ => none) hoff >>= fun out =>
          .ok ((c.read2byte mem 2).2, headerProtId c mem, out.1) := by
  obtain ⟨_, _, _, ⟨hfirst, rfl, rfl⟩, ⟨hsecond, rfl, rfl⟩, rfl⟩ := h
  have hone : unpackRead2byte c mem 2 =
      .ok ((c.read2byte mem 2).2, 2 + (c.read2byte mem 2).1.toNat) := if_neg (not_lt.mpr hfirst)
  have htwo : unpackRead2byte c mem (2 + (c.read2byte mem 2).1.toNat) =
      .ok (headerProtId c mem, 2 + (c.read2byte mem 2).1.toNat +
        (c.read2byte mem (2 + (c.read2byte mem 2).1.toNat)).1.toNat) :=
    if_neg (not_lt.mpr hsecond)
  exact unpack_of_header hsz hone htwo dict

/-- The number of no protocol is printed, and then its entry is used all the same. -/
theorem not_safe_of_unknown (hsz : sz < BUFFER_MAX_LEN) {header : List Span} {hoff : Nat}
    (hheader : HeaderSpans c mem 2 header hoff)
    (hprot : protDict (headerProtId c mem) = none) : ¬ UnpackSafe c protDict mem sz := by
  have hdict : initprot protDict (headerProtId c mem) = none := by
    rw [initprot, hprot]
    rfl
  rw [UnpackSafe, unpack_header hsz hheader]
  simp only [hdict]
  exact not_false

theorem headerSpans_fixed : (HeaderSpans c mem).Fixed :=
  (consumes_fixed _).andThen (consumes_fixed _)

theorem safe_known_iff (hc : c.Typed) (hsz : sz < BUFFER_MAX_LEN) {header : List Span}
    {hoff : Nat} (hheader : HeaderSpans c mem 2 header hoff) {fields : Table Field}
    (hprot : protDict (headerProtId c mem) = some fields) :
    UnpackSafe c protDict mem sz ↔
      ¬ ReachesNames c mem (initTable fields) (initTable fields).keysort hoff ∧
        ∀ body off, Spans (FieldSpans c mem (initTable fields)) (initTable fields).keysort hoff
          body off → Within sz (header ++ body) := by
  have hdecodes : Decodes (unpackFields c mem (initTable fields) (initTable fields).keysort
      (fun _ => none) hoff) _ _ :=
    unpackFields_decodes hc (fun _ hkey => initTable_get_ne_none hkey) _
  rw [UnpackSafe, unpack_header hsz hheader]
  simp only [initprot_some hprot]
  cases hrun : unpackFields c mem (initTable fields) (initTable fields).keysort
      (fun _ => none) hoff with
  | ok out =>
    obtain ⟨p, off⟩ := out
    rw [hrun] at hdecodes
    obtain ⟨⟨body, hbody⟩, hquiet⟩ := hdecodes
    constructor
    · intro h
      obtain ⟨fields', hfields', header', body', hoff', off', hheader', hbody', hwithin⟩ := h
      obtain ⟨rfl, rfl⟩ := headerSpans_fixed 2 _ _ _ _ hheader hheader'
      rw [hprot] at hfields'
      obtain rfl := Option.some.inj hfields'
      refine ⟨hquiet, ?_⟩
      intro body'' off'' hbody''
      obtain ⟨rfl, -⟩ := Spans.fixed (fieldSpans_fixed _) _ _ _ _ _ _ hbody' hbody''
      exact hwithin
    · intro h
      exact ⟨fields, hprot, header, body, hoff, off, hheader, hbody, h.2 body off hbody⟩
  | error stop =>
    rw [hrun] at hdecodes
    cases stop with
    | raises => exact iff_of_false not_false fun h => h.1 hdecodes
    | returns code =>
      obtain ⟨hcode, hnone, hquiet⟩ := hdecodes
      exact iff_of_true hcode ⟨hquiet, fun body off hbody => absurd hbody (hnone body off)⟩

theorem unpack_safe_iff (hc : c.Typed) (protDict : Int → Option (Table Field)) (mem : Memory)
    {sz : Nat} (hsz : sz < BUFFER_MAX_LEN) :
    UnpackSafe c protDict mem sz ↔ Intact c protDict mem sz := by
  by_cases hheader : ∃ header hoff, HeaderSpans c mem 2 header hoff
  · obtain ⟨header, hoff, hheader⟩ := hheader
    cases hprot : protDict (headerProtId c mem) with
    | none =>
      refine iff_of_false (not_safe_of_unknown hsz hheader hprot) ?_
      intro h
      obtain ⟨fields, hfields, -⟩ := h header hoff hheader
      rw [hprot] at hfields
      cases hfields
    | some fields =>
      rw [safe_known_iff hc hsz hheader hprot]
      constructor
      · intro h header' hoff' hheader'
        obtain ⟨rfl, rfl⟩ := headerSpans_fixed 2 _ _ _ _ hheader hheader'
        exact ⟨fields, hprot, h⟩
      · intro h
        obtain ⟨fields', hfields', hlayout⟩ := h header hoff hheader
        rw [hprot] at hfields'
        obtain rfl := Option.some.inj hfields'
        exact hlayout
  · have hnone : ∀ header hoff, ¬ HeaderSpans c mem 2 header hoff :=
      fun header hoff h => hheader ⟨header, hoff, h⟩
    rw [UnpackSafe, unpack_no_header hsz hnone]
    refine iff_of_true (by decide : (-2 : Int) < 0) ?_
    exact fun header hoff h => absurd h (hnone header hoff)

end Safety

theorem lprotoBytes_typed : lprotoBytes.Typed := by
  intro tp mem off _
  cases tp <;> rfl

theorem ping_spans {mem : Memory} {body : List Span} {off off' : Nat}
    (h : Spans (FieldSpans lprotoBytes mem (initTable pingFields)) (initTable pingFields).keysort
      off body off') : body = [(off, 4)] := by
  obtain ⟨_, _, _, hfield, ⟨rfl, -⟩, rfl⟩ := h
  obtain ⟨-, rfl, -⟩ := hfield
  rfl

theorem unpack_safe_ping :
    UnpackSafe lprotoBytes (oneProt 1 pingFields)
      (holding [0#8, 8#8, 0#8, 5#8, 0#8, 1#8, 0#8, 0#8, 0#8, 7#8]) 10 := by
  apply (unpack_safe_iff lprotoBytes_typed _ _ (by decide)).mpr
  intro header hoff hheader
  obtain ⟨_, _, _, ⟨-, rfl, rfl⟩, ⟨-, rfl, rfl⟩, rfl⟩ := hheader
  refine ⟨pingFields, rfl, ?_, ?_⟩
  · intro h
    rcases h with h | ⟨_, _, -, h⟩
    · obtain ⟨⟨names, hnames⟩, -⟩ := h
      cases hnames
    · exact h
  · intro body off hbody
    rw [ping_spans hbody]
    decide

/-- The notice of the gateway, whose number is in no dictionary of the server, and a frame without
the field of its protocol. -/
theorem unpack_unsafe :
    lprotoBytes.Typed ∧
      ¬ UnpackSafe lprotoBytes (oneProt 1 pingFields) (holding (goneNotice 5)) 6 ∧
      ¬ UnpackSafe lprotoBytes (oneProt 1 pingFields)
        (holding [0#8, 4#8, 0#8, 5#8, 0#8, 1#8]) 6 := by
  have hsize : 6 < BUFFER_MAX_LEN := by decide
  refine ⟨lprotoBytes_typed, ?_, ?_⟩
  · apply not_safe_of_unknown hsize
      ⟨_, _, _, ⟨by decide, rfl, rfl⟩, ⟨by decide, rfl, rfl⟩, rfl⟩
    have hid : headerProtId lprotoBytes (holding (goneNotice 5)) = 98 := by decide
    rw [hid]
    rfl
  · have hprot : oneProt 1 pingFields
        (headerProtId lprotoBytes (holding [0#8, 4#8, 0#8, 5#8, 0#8, 1#8])) = some pingFields := rfl
    rw [safe_known_iff lprotoBytes_typed hsize
      ⟨_, _, _, ⟨by decide, rfl, rfl⟩, ⟨by decide, rfl, rfl⟩, rfl⟩ hprot]
    intro h
    have hbeyond := h.2 [(6, 4)] 10 ⟨_, _, _, ⟨by decide, rfl, rfl⟩, ⟨rfl, rfl⟩, rfl⟩
    exact absurd hbeyond (by decide)

end NetgameFormal
