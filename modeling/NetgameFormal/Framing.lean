import Mathlib.Data.List.Induction

/-!
# Length-prefixed streams and a one-frame-per-chunk receiver

A frame is two length units and a payload of the declared length. The receiver
keeps a length it has already read and the units it holds. After every chunk it
reads at most one length and takes at most one payload. A length of zero is
consumed with nothing to take; a length in `1 .. m-1` is dropped *without* its
payload, which stays in front of the held units.
-/

set_option autoImplicit false

namespace NetgameFormal.Framing

universe u
variable {β : Type u}

/-- A frame whose length units declare exactly its payload. -/
structure Frame (len : β → β → Nat) where
  hi : β
  lo : β
  payload : List β
  declared : len hi lo = payload.length

variable {len : β → β → Nat}

def Frame.bytes (f : Frame len) : List β := f.hi :: f.lo :: f.payload

@[simp] theorem Frame.bytes_length (f : Frame len) : f.bytes.length = f.payload.length + 2 := rfl

def stream (fs : List (Frame len)) : List β := fs.flatMap Frame.bytes

@[simp] theorem stream_nil : stream ([] : List (Frame len)) = [] := rfl

@[simp] theorem stream_cons (f : Frame len) (fs : List (Frame len)) :
    stream (f :: fs) = f.bytes ++ stream fs := rfl

@[simp] theorem stream_append (fs gs : List (Frame len)) :
    stream (fs ++ gs) = stream fs ++ stream gs := by
  simp [stream]

/-- The payloads a receiver with minimum length `m` should hand on. -/
def delivered (m : Nat) (fs : List (Frame len)) : List (List β) :=
  (fs.filter (m ≤ ·.payload.length)).map Frame.payload

@[simp] theorem delivered_append (m : Nat) (fs gs : List (Frame len)) :
    delivered m (fs ++ gs) = delivered m fs ++ delivered m gs := by
  simp [delivered]

theorem delivered_eq_map {m : Nat} {fs : List (Frame len)}
    (h : ∀ f ∈ fs, m ≤ f.payload.length) : delivered m fs = fs.map Frame.payload := by
  unfold delivered
  rw [List.filter_eq_self.mpr fun f hf => decide_eq_true (h f hf)]

/-- The frames all of whose units are among the first `n` of the stream. -/
def arrived : List (Frame len) → Nat → List (Frame len)
  | [], _ => []
  | f :: fs, n => if f.bytes.length ≤ n then f :: arrived fs (n - f.bytes.length) else []

theorem arrived_append (fs gs : List (Frame len)) {n : Nat} (h : (stream fs).length ≤ n) :
    arrived (fs ++ gs) n = fs ++ arrived gs (n - (stream fs).length) := by
  induction fs generalizing n with
  | nil => simp
  | cons f fs ih =>
    simp only [stream_cons, List.length_append] at h ⊢
    rw [List.cons_append, arrived, if_pos (by omega), ih (by omega), List.cons_append,
      Nat.sub_sub]

theorem arrived_stream (fs : List (Frame len)) : arrived fs (stream fs).length = fs := by
  have h := arrived_append fs [] (Nat.le_refl (stream fs).length)
  rw [List.append_nil] at h
  rw [h]
  exact List.append_nil fs

structure Receiver (β : Type u) where
  header : Nat
  pending : List β

@[ext] theorem Receiver.ext {s t : Receiver β} (hh : s.header = t.header)
    (hp : s.pending = t.pending) : s = t := by
  cases s
  cases t
  simp_all

/-- The receiver of a fresh connection, which is also its state between two frames. -/
def Receiver.idle : Receiver β := ⟨0, []⟩

/-- What happens once a length `h` is known and `held` follows it. -/
def settle (m h : Nat) (held : List β) : Receiver β × Option (List β) :=
  if held.length < h then (⟨h, held⟩, none)
  else if h = 0 then (⟨0, held⟩, none)
  else if m ≤ h then (⟨0, held.drop h⟩, some (held.take h))
  else (⟨0, held⟩, none)

def feed (len : β → β → Nat) (m : Nat) (s : Receiver β) (chunk : List β) :
    Receiver β × Option (List β) :=
  if s.header = 0 then
    match s.pending ++ chunk with
    | a :: b :: held => settle m (len a b) held
    | held => (⟨0, held⟩, none)
  else settle m s.header (s.pending ++ chunk)

theorem feed_short {m : Nat} {s : Receiver β} {c : List β} (hs : s.header = 0)
    (hc : (s.pending ++ c).length < 2) : feed len m s c = (⟨0, s.pending ++ c⟩, none) := by
  unfold feed
  rw [if_pos hs]
  generalize s.pending ++ c = bytes at hc
  rcases bytes with _ | ⟨a, _ | ⟨b, held⟩⟩
  · rfl
  · rfl
  · simp only [List.length_cons] at hc
    omega

theorem feed_length {m : Nat} {s : Receiver β} {c held : List β} {a b : β} (hs : s.header = 0)
    (hc : s.pending ++ c = a :: b :: held) : feed len m s c = settle m (len a b) held := by
  rw [feed, if_pos hs, hc]

theorem feed_payload {m : Nat} {s : Receiver β} {c : List β} (hs : s.header ≠ 0) :
    feed len m s c = settle m s.header (s.pending ++ c) := if_neg hs

/-- A chunk brings no whole length, or the length and what is behind it, or what is behind the
length in hand. -/
theorem feed_cases (len : β → β → Nat) (m : Nat) (s : Receiver β) (c : List β) :
    s.header = 0 ∧ (s.pending ++ c).length < 2 ∧ feed len m s c = (⟨0, s.pending ++ c⟩, none) ∨
      (∃ a b held, s.header = 0 ∧ s.pending ++ c = a :: b :: held ∧
        feed len m s c = settle m (len a b) held) ∨
      s.header ≠ 0 ∧ feed len m s c = settle m s.header (s.pending ++ c) := by
  by_cases hs : s.header = 0
  · rcases hbytes : s.pending ++ c with _ | ⟨a, _ | ⟨b, held⟩⟩
    · left
      rw [feed_short hs (by simp [hbytes]), hbytes]
      exact ⟨hs, by simp, rfl⟩
    · left
      rw [feed_short hs (by simp [hbytes]), hbytes]
      exact ⟨hs, by simp, rfl⟩
    · exact .inr (.inl ⟨a, b, held, hs, rfl, feed_length hs hbytes⟩)
  · exact .inr (.inr ⟨hs, feed_payload hs⟩)

def feedAll (len : β → β → Nat) (m : Nat) :
    Receiver β → List (List β) → Receiver β × List (List β)
  | s, [] => (s, [])
  | s, c :: cs =>
    let one := feed len m s c
    let more := feedAll len m one.1 cs
    (more.1, one.2.toList ++ more.2)

@[simp] theorem feedAll_nil (m : Nat) (s : Receiver β) : feedAll len m s [] = (s, []) := rfl

theorem feedAll_append (m : Nat) (s : Receiver β) (cs ds : List (List β)) :
    feedAll len m s (cs ++ ds) =
      ((feedAll len m (feedAll len m s cs).1 ds).1,
        (feedAll len m s cs).2 ++ (feedAll len m (feedAll len m s cs).1 ds).2) := by
  induction cs generalizing s with
  | nil => rfl
  | cons c cs ih => simp only [List.cons_append, feedAll, ih, List.append_assoc]

@[simp] theorem feedAll_one (m : Nat) (s : Receiver β) (c : List β) :
    feedAll len m s [c] = ((feed len m s c).1, (feed len m s c).2.toList) := by
  simp [feedAll]

theorem feedAll_snoc (m : Nat) (s : Receiver β) (cs : List (List β)) (c : List β) :
    feedAll len m s (cs ++ [c]) =
      ((feed len m (feedAll len m s cs).1 c).1,
        (feedAll len m s cs).2 ++ (feed len m (feedAll len m s cs).1 c).2.toList) := by
  rw [feedAll_append, feedAll_one]

theorem settle_late {m h : Nat} {held : List β} (hlate : held.length < h) :
    settle m h held = (⟨h, held⟩, none) :=
  if_pos hlate

theorem settle_zero (m : Nat) (held : List β) : settle m 0 held = (⟨0, held⟩, none) := by
  simp [settle]

theorem settle_short {m h : Nat} {held : List β} (hle : h ≤ held.length) (hshort : h < m) :
    settle m h held = (⟨0, held⟩, none) := by
  simp only [settle, Nat.not_lt.mpr hle, Nat.not_le.mpr hshort, if_false, ite_self]

theorem settle_complete {m h : Nat} {held : List β} (hpos : 0 < h) (hle : h ≤ held.length)
    (hlong : m ≤ h) : settle m h held = (⟨0, held.drop h⟩, some (held.take h)) := by
  simp only [settle, Nat.not_lt.mpr hle, Nat.ne_of_gt hpos, hlong, if_false, if_true]

theorem settle_cases (m h : Nat) (held : List β) :
    held.length < h ∧ settle m h held = (⟨h, held⟩, none) ∨
      h ≤ held.length ∧ ¬(0 < h ∧ m ≤ h) ∧ settle m h held = (⟨0, held⟩, none) ∨
      h ≤ held.length ∧ (0 < h ∧ m ≤ h) ∧
        settle m h held = (⟨0, held.drop h⟩, some (held.take h)) := by
  by_cases hlate : held.length < h
  · exact .inl ⟨hlate, settle_late hlate⟩
  · right
    have hle : h ≤ held.length := Nat.le_of_not_lt hlate
    by_cases htaken : 0 < h ∧ m ≤ h
    · exact .inr ⟨hle, htaken, settle_complete htaken.1 hle htaken.2⟩
    · refine .inl ⟨hle, htaken, ?_⟩
      rcases Nat.eq_zero_or_pos h with rfl | hpos
      · exact settle_zero m held
      · exact settle_short hle (by omega)

/-- The units held, with a chunk behind them, contain the payload the receiver waits for. -/
def Completes (len : β → β → Nat) (m : Nat) (s : Receiver β) (chunk : List β) : Prop :=
  if s.header = 0 then
    match s.pending ++ chunk with
    | a :: b :: held => 0 < len a b ∧ m ≤ len a b ∧ len a b ≤ held.length
    | _ => False
  else m ≤ s.header ∧ s.header ≤ (s.pending ++ chunk).length

theorem settle_isSome_iff (m h : Nat) (held : List β) :
    (settle m h held).2.isSome = true ↔ 0 < h ∧ m ≤ h ∧ h ≤ held.length := by
  rcases settle_cases m h held with ⟨hlate, heq⟩ | ⟨-, hleft, heq⟩ | ⟨hle, htaken, heq⟩
  · rw [heq]
    simp only [Option.isSome_none, Bool.false_eq_true, false_iff]
    omega
  · rw [heq]
    simp only [Option.isSome_none, Bool.false_eq_true, false_iff]
    omega
  · rw [heq]
    simp only [Option.isSome_some, true_iff]
    exact ⟨htaken.1, htaken.2, hle⟩

theorem feed_isSome_iff (m : Nat) (s : Receiver β) (chunk : List β) :
    (feed len m s chunk).2.isSome = true ↔ Completes len m s chunk := by
  unfold feed Completes
  by_cases hheader : s.header = 0
  · rw [if_pos hheader, if_pos hheader]
    rcases s.pending ++ chunk with - | ⟨a, - | ⟨b, held⟩⟩
    · simp
    · simp
    · exact settle_isSome_iff m (len a b) held
  · rw [if_neg hheader, if_neg hheader, settle_isSome_iff]
    constructor
    · exact fun h => h.2
    · exact fun h => ⟨Nat.pos_of_ne_zero hheader, h⟩

theorem settle_header (m h : Nat) (held : List β) :
    (settle m h held).1.header = h ∨ (settle m h held).1.header = 0 := by
  rcases settle_cases m h held with ⟨-, heq⟩ | ⟨-, -, heq⟩ | ⟨-, -, heq⟩
  · rw [heq]
    exact .inl rfl
  · rw [heq]
    exact .inr rfl
  · rw [heq]
    exact .inr rfl

theorem feed_header_lt {bound m : Nat} (hlen : ∀ a b, len a b < bound) {s : Receiver β}
    (hs : s.header < bound) (chunk : List β) : (feed len m s chunk).1.header < bound := by
  have hsettle : ∀ h held, h < bound → (settle m h held : Receiver β × _).1.header < bound := by
    intro h held hh
    rcases settle_header m h held with hs | hs <;> omega
  rcases feed_cases len m s chunk with ⟨-, -, heq⟩ | ⟨a, b, held, -, -, heq⟩ | ⟨-, heq⟩
  · rw [heq]
    exact Nat.zero_lt_of_lt hs
  · rw [heq]
    exact hsettle _ _ (hlen a b)
  · rw [heq]
    exact hsettle _ _ hs

theorem feed_some_length {bound m : Nat} (hlen : ∀ a b, len a b < bound) {s : Receiver β}
    (hs : s.header < bound) {chunk payload : List β} (h : (feed len m s chunk).2 = some payload) :
    m ≤ payload.length ∧ payload.length < bound := by
  have hsettle : ∀ h held, h < bound → (settle m h held).2 = some payload →
      m ≤ payload.length ∧ payload.length < bound := by
    intro h held hh hout
    rcases settle_cases m h held with ⟨-, heq⟩ | ⟨-, -, heq⟩ | ⟨hle, htaken, heq⟩
    · rw [heq] at hout
      cases hout
    · rw [heq] at hout
      cases hout
    · rw [heq] at hout
      obtain rfl := Option.some.inj hout
      rw [List.length_take]
      omega
  rcases feed_cases len m s chunk with ⟨-, -, heq⟩ | ⟨a, b, held, -, -, heq⟩ | ⟨-, heq⟩
  · rw [heq] at h
    cases h
  · rw [heq] at h
    exact hsettle _ _ (hlen a b) h
  · rw [heq] at h
    exact hsettle _ _ hs h

/-- The minimum decides only whether a complete payload is taken. -/
theorem settle_minimum {m m' h : Nat} {held payload : List β}
    (hout : (settle m h held).2 = some payload) :
    (settle m' h held).2 = if m' ≤ payload.length then some payload else none := by
  unfold settle at hout ⊢
  by_cases hlate : held.length < h
  · simp [hlate] at hout
  · by_cases hzero : h = 0
    · simp [hzero] at hout
    · simp only [hlate, hzero, if_false] at hout ⊢
      split at hout
      · obtain rfl := Option.some.inj hout
        have hlength : (held.take h).length = h := by
          rw [List.length_take]
          omega
        rw [hlength]
        split <;> rfl
      · cases hout

theorem feed_minimum {m m' : Nat} {s : Receiver β} {chunk payload : List β}
    (hout : (feed len m s chunk).2 = some payload) :
    (feed len m' s chunk).2 = if m' ≤ payload.length then some payload else none := by
  unfold feed at hout ⊢
  split at hout
  · next hheader =>
    rw [if_pos hheader]
    split at hout
    · exact settle_minimum hout
    · cases hout
  · next hheader =>
    rw [if_neg hheader]
    exact settle_minimum hout

/-! ## Provenance, for any input -/

/-- The held units are the last ones received, right behind the length in hand. -/
def Trails (len : β → β → Nat) (received : List β) (s : Receiver β) : Prop :=
  if s.header = 0 then s.pending <:+ received
  else ∃ hi lo, len hi lo = s.header ∧ hi :: lo :: s.pending <:+ received

theorem Trails.idle (received : List β) : Trails len received Receiver.idle :=
  List.nil_suffix

theorem settle_trails (len : β → β → Nat) (m : Nat) {hi lo : β} {held received : List β}
    (hsuffix : hi :: lo :: held <:+ received) :
    Trails len received (settle m (len hi lo) held).1 ∧
      ∀ payload, (settle m (len hi lo) held).2 = some payload →
        len hi lo = payload.length ∧ hi :: lo :: payload <:+: received := by
  have hheld : held <:+ received :=
    ((List.suffix_cons lo held).trans (List.suffix_cons hi _)).trans hsuffix
  rcases settle_cases m (len hi lo) held with ⟨-, heq⟩ | ⟨-, -, heq⟩ | ⟨hle, -, heq⟩
  · rw [heq]
    refine ⟨?_, by simp⟩
    unfold Trails
    split
    · exact hheld
    · exact ⟨hi, lo, rfl, hsuffix⟩
  · rw [heq]
    exact ⟨hheld, by simp⟩
  · rw [heq]
    refine ⟨(List.drop_suffix _ held).trans hheld, ?_⟩
    intro payload hpayload
    obtain rfl := Option.some.inj hpayload
    refine ⟨(List.length_take_of_le hle).symm, ?_⟩
    have htake : hi :: lo :: held.take (len hi lo) <+: hi :: lo :: held := by
      simp [List.cons_prefix_cons, List.take_prefix]
    exact htake.isInfix.trans hsuffix.isInfix

/-- What a receiver hands on was received as it stands, its length included. -/
theorem feed_trails {m : Nat} {received : List β} {s : Receiver β} (h : Trails len received s)
    (chunk : List β) :
    Trails len (received ++ chunk) (feed len m s chunk).1 ∧
      ∀ payload, (feed len m s chunk).2 = some payload →
        ∃ hi lo, len hi lo = payload.length ∧ hi :: lo :: payload <:+: received ++ chunk := by
  unfold Trails at h
  rcases feed_cases len m s chunk with ⟨hheader, -, heq⟩ | ⟨hi, lo, held, hheader, hbytes, heq⟩ |
    ⟨hheader, heq⟩
  · rw [heq]
    rw [if_pos hheader] at h
    exact ⟨List.suffix_append_self_iff.mpr h, by simp⟩
  · rw [heq]
    rw [if_pos hheader] at h
    have hheld : hi :: lo :: held <:+ received ++ chunk := by
      rw [← hbytes]
      exact List.suffix_append_self_iff.mpr h
    obtain ⟨htrails, hout⟩ := settle_trails len m hheld
    exact ⟨htrails, fun payload hpayload => ⟨hi, lo, hout payload hpayload⟩⟩
  · rw [if_neg hheader] at h
    obtain ⟨hi, lo, hlen, hsuffix⟩ := h
    rw [heq, ← hlen]
    have hbytes : hi :: lo :: (s.pending ++ chunk) <:+ received ++ chunk := by
      obtain ⟨front, rfl⟩ := hsuffix
      exact ⟨front, by simp⟩
    obtain ⟨htrails, hout⟩ := settle_trails len m hbytes
    exact ⟨htrails, fun payload hpayload => ⟨hi, lo, hout payload hpayload⟩⟩

/-! ## Alignment with a stream of acceptable frames -/

/-- The length in hand and the units it was read from. -/
inductive InHand (rest : List (Frame len)) : Nat → List β → Prop where
  | none : InHand rest 0 []
  | next {f : Frame len} {fs : List (Frame len)} (hrest : rest = f :: fs)
      (hpos : f.payload.length ≠ 0) : InHand rest f.payload.length [f.hi, f.lo]

/-- The received units are the consumed frames, the length in hand and the held units. -/
structure Aligned (done rest : List (Frame len)) (head : List β) (s : Receiver β)
    (received : List β) : Prop where
  split : received = stream done ++ head ++ s.pending
  hand : InHand rest s.header head

theorem Aligned.idle (fs : List (Frame len)) :
    Aligned [] fs ([] : List β) Receiver.idle [] :=
  ⟨rfl, .none⟩

/-- What one chunk does: the next frame stays incomplete, or it is consumed, or
its length is rejected and its payload is left behind among the held units. -/
inductive Progress (m : Nat) (done rest : List (Frame len)) (received : List β)
    (next : Receiver β × Option (List β)) : Prop where
  | waits {head : List β} (hnext : Aligned done rest head next.1 received)
      (hout : next.2 = none)
      (hlate : ∀ f fs, rest = f :: fs → received.length < (stream (done ++ [f])).length) :
      Progress m done rest received next
  | consumes {f : Frame len} {fs : List (Frame len)} (hrest : rest = f :: fs)
      (hlen : f.payload.length = 0 ∨ m ≤ f.payload.length)
      (hnext : Aligned (done ++ [f]) fs [] next.1 received)
      (hout : next.2.toList = delivered m [f])
      (hcomplete : (stream (done ++ [f])).length ≤ received.length) :
      Progress m done rest received next
  | strands {f : Frame len} {fs : List (Frame len)} {held : List β} (hrest : rest = f :: fs)
      (hlen : 0 < f.payload.length ∧ f.payload.length < m)
      (hnext : next = (⟨0, held⟩, none))
      (hheld : received = stream done ++ [f.hi, f.lo] ++ held)
      (hcomplete : (stream (done ++ [f])).length ≤ received.length) :
      Progress m done rest received next

theorem settle_progress {m : Nat} (hm : 0 < m) {done fs : List (Frame len)} {f : Frame len}
    {received held : List β} (hreceived : received = stream done ++ [f.hi, f.lo] ++ held)
    (hheld : held <+: f.payload ++ stream fs) :
    Progress m done (f :: fs) received (settle m f.payload.length held) := by
  have hlen : received.length = (stream done).length + 2 + held.length := by
    rw [hreceived]
    simp
    omega
  have hdone : (stream (done ++ [f])).length = (stream done).length + 2 + f.payload.length := by
    simp
    omega
  by_cases hshort : held.length < f.payload.length
  · refine .waits (show Aligned _ _ [f.hi, f.lo] _ _ from ⟨?_, ?_⟩) ?_ ?_
    · simpa [settle, hshort] using hreceived
    · simp only [settle, hshort, if_true]
      exact .next rfl (by omega)
    · simp [settle, hshort]
    · rintro g gs hg
      obtain ⟨rfl, rfl⟩ := List.cons.inj hg
      omega
  have htake : held.take f.payload.length = f.payload := by
    obtain ⟨tail, htail⟩ := hheld
    have h := congrArg (List.take f.payload.length) htail
    rwa [List.take_append_of_le_length (by omega), List.take_left' rfl] at h
  have hreceived' : received = stream (done ++ [f]) ++ [] ++ held.drop f.payload.length := by
    have hcut : f.payload ++ held.drop f.payload.length = held := by
      calc f.payload ++ held.drop f.payload.length
          = held.take f.payload.length ++ held.drop f.payload.length := by rw [htake]
        _ = held := List.take_append_drop _ _
    rw [hreceived, ← hcut]
    simp [Frame.bytes]
  by_cases hzero : f.payload.length = 0
  · have hnil : f.payload = [] := List.length_eq_zero_iff.mp hzero
    refine .consumes rfl (Or.inl hzero) ⟨?_, ?_⟩ ?_ (by omega)
    · simpa [settle, hzero] using hreceived'
    · simp only [settle, hzero, Nat.not_lt_zero, if_false, if_true]
      exact .none
    · simp [settle, delivered, hnil, Nat.not_le.mpr hm]
  by_cases hmf : m ≤ f.payload.length
  · refine .consumes rfl (Or.inr hmf) ⟨?_, ?_⟩ ?_ (by omega)
    · simpa [settle, hshort, hzero, hmf] using hreceived'
    · simp only [settle, hshort, hzero, hmf, if_false, if_true]
      exact .none
    · simp [settle, hshort, hzero, hmf, delivered, htake]
  · exact .strands rfl ⟨by omega, by omega⟩ (by simp [settle, hshort, hzero, hmf]) hreceived
      (by omega)

/-- The step lemma of the receiver, for every stream and every chunk of it. -/
theorem feed_progress {m : Nat} (hm : 0 < m) {done rest : List (Frame len)}
    {head : List β} {s : Receiver β} {received chunk : List β}
    (h : Aligned done rest head s received)
    (hstream : received ++ chunk <+: stream (done ++ rest)) :
    Progress m done rest (received ++ chunk) (feed len m s chunk) := by
  obtain ⟨hsplit, hhand⟩ := h
  rw [hsplit, stream_append, List.append_assoc, List.append_assoc,
    List.prefix_append_right_inj] at hstream
  generalize hheader : s.header = header at hhand
  cases hhand with
  | none =>
    simp only [List.nil_append, List.append_nil] at hsplit hstream
    have hreceived : received ++ chunk = stream done ++ (s.pending ++ chunk) := by
      rw [hsplit, List.append_assoc]
    rcases feed_cases len m s chunk with ⟨-, hshort, heq⟩ | ⟨a, b, held, -, hbytes, heq⟩ | ⟨hne, -⟩
    · rw [heq]
      refine .waits (show Aligned _ _ [] _ _ from ⟨by simpa using hreceived, .none⟩) rfl ?_
      rintro f fs -
      simp only [hreceived, stream_append, stream_cons, List.length_append,
        Frame.bytes_length] at hshort ⊢
      omega
    · rw [hbytes] at hstream hreceived
      rw [heq]
      cases rest with
      | nil => simp at hstream
      | cons f fs =>
        simp only [stream_cons, Frame.bytes, List.cons_append, List.cons_prefix_cons] at hstream
        obtain ⟨rfl, rfl, hheld⟩ := hstream
        simp only [f.declared]
        exact settle_progress hm (by simpa using hreceived) hheld
    · exact absurd hheader hne
  | @next f fs hrest hpos =>
    subst rest
    rw [feed_payload (by omega), hheader]
    have hheld : s.pending ++ chunk <+: f.payload ++ stream fs := by
      simpa [Frame.bytes, List.cons_prefix_cons] using hstream
    exact settle_progress hm (by simp [hsplit]) hheld

/-! ## Soundness, for any segmentation -/

/-- Every declared length is zero or at least `m`. -/
def Acceptable (m : Nat) (fs : List (Frame len)) : Prop :=
  ∀ f ∈ fs, f.payload.length = 0 ∨ m ≤ f.payload.length

/-- Every state of a run over an acceptable stream is aligned with it, and
exactly the payloads of the consumed frames have been handed on. -/
theorem feedAll_aligned {m : Nat} (hm : 0 < m) {fs : List (Frame len)}
    (hgood : Acceptable m fs) {cs : List (List β)} (hcs : cs.flatten <+: stream fs) :
    ∃ done rest head, fs = done ++ rest ∧
      Aligned done rest head (feedAll len m Receiver.idle cs).1 cs.flatten ∧
      (feedAll len m Receiver.idle cs).2 = delivered m done := by
  induction cs using List.reverseRecOn with
  | nil => exact ⟨[], fs, [], rfl, .idle fs, rfl⟩
  | append_singleton cs c ih =>
    rw [List.flatten_append, List.flatten_singleton] at hcs ⊢
    obtain ⟨done, rest, head, rfl, haligned, hout⟩ := ih ((List.prefix_append _ _).trans hcs)
    rw [feedAll_snoc]
    cases feed_progress hm haligned hcs with
    | waits hnext hnone _ => exact ⟨done, rest, _, rfl, hnext, by simp [hout, hnone]⟩
    | @consumes f fs hrest _ hnext hone _ =>
      subst hrest
      exact ⟨done ++ [f], fs, [], by simp, hnext, by simp [hout, hone]⟩
    | @strands f fs _ hrest hlen _ _ _ =>
      have hf := hgood f (by simp [hrest])
      omega

end NetgameFormal.Framing
