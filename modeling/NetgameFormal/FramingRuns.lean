import NetgameFormal.Framing

/-!
# When a one-frame-per-chunk receiver keeps up, and when it resynchronises

Two exact criteria for the receiver of `Framing`: it never leaves a complete
frame waiting iff no chunk completes two frames, and, for cuts that respect
frame boundaries, it reads every length at a frame boundary iff at most the
last frame is too short.
-/

set_option autoImplicit false

namespace NetgameFormal.Framing

universe u
variable {β : Type u} {len : β → β → Nat}

/-! ## One reading of a stream -/

theorem Frame.eq_of_append {f g : Frame len} {xs ys : List β}
    (h : f.bytes ++ xs = g.bytes ++ ys) : f = g ∧ xs = ys := by
  obtain ⟨hi, lo, payload, hdeclared⟩ := f
  obtain ⟨hi', lo', payload', hdeclared'⟩ := g
  simp only [Frame.bytes, List.cons_append, List.cons.injEq] at h
  obtain ⟨rfl, rfl, hrest⟩ := h
  have hlength : payload.length = payload'.length := hdeclared.symm.trans hdeclared'
  obtain ⟨rfl, rfl⟩ := List.append_inj hrest hlength
  exact ⟨rfl, rfl⟩

theorem stream_injective {fs gs : List (Frame len)} (h : stream fs = stream gs) : fs = gs := by
  induction fs generalizing gs with
  | nil =>
    cases gs with
    | nil => rfl
    | cons g gs => cases h
  | cons f fs ih =>
    cases gs with
    | nil => cases h
    | cons g gs =>
      obtain ⟨rfl, hrest⟩ := Frame.eq_of_append h
      rw [ih hrest]

/-! ## Keeping up with the stream -/

/-- After every chunk, every frame that has arrived has been handed on. -/
def NoneWaiting (m : Nat) (fs : List (Frame len)) (cs : List (List β)) : Prop :=
  ∀ front, front <+: cs →
    (feedAll len m Receiver.idle front).2 =
      (arrived fs front.flatten.length).map Frame.payload

/-- No chunk holds the last unit of more than one frame. -/
def OneEndPerChunk (fs : List (Frame len)) (cs : List (List β)) : Prop :=
  ∀ front c, front ++ [c] <+: cs →
    (arrived fs (front ++ [c]).flatten.length).length ≤
      (arrived fs front.flatten.length).length + 1

theorem oneEndPerChunk_iff_take {fs : List (Frame len)} {cs : List (List β)} :
    OneEndPerChunk fs cs ↔ ∀ n, n < cs.length →
      (arrived fs (cs.take (n + 1)).flatten.length).length ≤
        (arrived fs (cs.take n).flatten.length).length + 1 := by
  constructor
  · intro h n hn
    have htake : cs.take n ++ [cs[n]] = cs.take (n + 1) := List.take_append_getElem hn
    have hone := h (cs.take n) cs[n] (htake ▸ List.take_prefix _ _)
    rwa [htake] at hone
  · intro h front c hfront
    have hlt := hfront.length_le
    rw [List.length_append, List.length_singleton] at hlt
    have hall := List.prefix_iff_eq_take.mp hfront
    have hinit := List.prefix_iff_eq_take.mp ((List.prefix_append front [c]).trans hfront)
    rw [List.length_append, List.length_singleton] at hall
    have hone := h front.length (by omega)
    rwa [← hall, ← hinit] at hone

instance (fs : List (Frame len)) (cs : List (List β)) : Decidable (OneEndPerChunk fs cs) :=
  decidable_of_iff _ oneEndPerChunk_iff_take.symm

theorem feed_output_length (len : β → β → Nat) (m : Nat) (s : Receiver β) (c : List β) :
    (feed len m s c).2.toList.length ≤ 1 := by
  cases (feed len m s c).2 <;> simp

theorem arrived_eq_nil {rest : List (Frame len)} {n : Nat}
    (h : ∀ f fs, rest = f :: fs → n < f.bytes.length) : arrived rest n = [] := by
  cases rest with
  | nil => rfl
  | cons f fs =>
    have hf := h f fs rfl
    rw [arrived, if_neg (by omega)]

theorem prefix_flatten {cs ds : List (List β)} (h : cs <+: ds) : cs.flatten <+: ds.flatten := by
  obtain ⟨tail, rfl⟩ := h
  exact ⟨tail.flatten, by simp⟩

/-- One chunk of a stream of acceptable frames, seen from a receiver that has kept up. -/
theorem keepsUp_step {m : Nat} (hm : 0 < m) {fs : List (Frame len)}
    (hfs : ∀ f ∈ fs, m ≤ f.payload.length) {cs : List (List β)} {c : List β}
    (hcs : (cs ++ [c]).flatten <+: stream fs)
    (hup : (feedAll len m Receiver.idle cs).2 =
      (arrived fs cs.flatten.length).map Frame.payload)
    (hone : (arrived fs (cs ++ [c]).flatten.length).length ≤
      (arrived fs cs.flatten.length).length + 1) :
    (feedAll len m Receiver.idle (cs ++ [c])).2 =
      (arrived fs (cs ++ [c]).flatten.length).map Frame.payload := by
  have hgood : Acceptable m fs := fun f hf => Or.inr (hfs f hf)
  have hsplit : (cs ++ [c]).flatten = cs.flatten ++ c := by simp
  rw [hsplit] at hcs hone ⊢
  obtain ⟨done, rest, head, rfl, haligned, hout⟩ :=
    feedAll_aligned hm hgood ((List.prefix_append _ _).trans hcs)
  have hmap : ∀ gs, (∀ f ∈ gs, f ∈ done ++ rest) → delivered m gs = gs.map Frame.payload :=
    fun gs hgs => delivered_eq_map fun f hf => hfs f (hgs f hf)
  have hcount : (arrived (done ++ rest) cs.flatten.length).length = done.length := by
    have h := congrArg List.length (hup.symm.trans hout)
    rwa [hmap done (fun f hf => List.mem_append_left _ hf), List.length_map,
      List.length_map] at h
  rw [feedAll_snoc, hout, hmap done (fun f hf => List.mem_append_left _ hf)]
  cases feed_progress hm haligned hcs with
  | waits hnext hnone hlate =>
    have hreach : (stream done).length ≤ (cs.flatten ++ c).length := by
      rw [hnext.split]
      simp
    rw [arrived_append done rest hreach, arrived_eq_nil, hnone]
    · simp
    · rintro f gs rfl
      have h := hlate f gs rfl
      simp only [stream_append, stream_cons, stream_nil, List.append_nil, List.length_append] at h
      simp only [List.length_append] at hreach ⊢
      omega
  | @consumes f gs hrest _ hnext hnew hcomplete =>
    subst hrest
    have hassoc : done ++ f :: gs = (done ++ [f]) ++ gs := by simp
    rw [hassoc, arrived_append _ gs hcomplete] at hone ⊢
    rw [← hassoc, hcount, List.length_append, List.length_append, List.length_singleton] at hone
    have hnil : arrived gs ((cs.flatten ++ c).length - (stream (done ++ [f])).length) = [] :=
      List.length_eq_zero_iff.mp (by omega)
    rw [hnil, hnew, hmap [f] (by simp)]
    simp
  | @strands f gs _ hrest hlen _ _ _ =>
    have hf := hfs f (by simp [hrest])
    omega

theorem noneWaiting_iff {m : Nat} (hm : 0 < m) {fs : List (Frame len)}
    (hfs : ∀ f ∈ fs, m ≤ f.payload.length) {cs : List (List β)}
    (hcs : cs.flatten <+: stream fs) : NoneWaiting m fs cs ↔ OneEndPerChunk fs cs := by
  constructor
  · intro h front c hfront
    have hbefore := congrArg List.length (h front ((List.prefix_append _ _).trans hfront))
    have hafter := congrArg List.length (h (front ++ [c]) hfront)
    have hnew := feed_output_length len m (feedAll len m Receiver.idle front).1 c
    rw [feedAll_snoc, List.length_append, List.length_map] at hafter
    rw [List.length_map] at hbefore
    omega
  · intro h front hfront
    induction front using List.reverseRecOn with
    | nil =>
      rw [arrived_eq_nil (by simp)]
      rfl
    | append_singleton front c ih =>
      exact keepsUp_step hm hfs ((prefix_flatten hfront).trans hcs)
        (ih ((List.prefix_append _ _).trans hfront)) (h front c hfront)

/-! ## Cuts that respect frame boundaries -/

/-- A cut of a stream into non-empty chunks none of which meets two frames. -/
inductive Cut : List (Frame len) → List (List β) → Prop where
  | nil : Cut [] []
  | cons {f : Frame len} {fs : List (Frame len)} {g cs : List (List β)} :
      g.flatten = f.bytes → (∀ c ∈ g, c ≠ []) → Cut fs cs → Cut (f :: fs) (g ++ cs)

theorem Cut.of_append {fs gs : List (Frame len)} {cs : List (List β)} (h : Cut (fs ++ gs) cs) :
    ∃ c₁ c₂, cs = c₁ ++ c₂ ∧ Cut fs c₁ ∧ Cut gs c₂ := by
  induction fs generalizing cs with
  | nil => exact ⟨[], cs, rfl, .nil, h⟩
  | cons f fs ih =>
    cases h with
    | @cons _ _ g cs hg hne hrest =>
      obtain ⟨c₁, c₂, rfl, h₁, h₂⟩ := ih hrest
      exact ⟨g ++ c₁, c₂, by simp, .cons hg hne h₁, h₂⟩

theorem Cut.flatten_eq {fs : List (Frame len)} {cs : List (List β)} (h : Cut fs cs) :
    cs.flatten = stream fs := by
  induction h with
  | nil => rfl
  | cons hg _ _ ih => rw [List.flatten_append, hg, ih, stream_cons]

/-- The stream offsets at which the receiver reads a length; `n` units came before. -/
def lengthReads (len : β → β → Nat) (m : Nat) : Receiver β → Nat → List (List β) → List Nat
  | _, _, [] => []
  | s, n, c :: cs =>
    (if s.header = 0 ∧ 2 ≤ (s.pending ++ c).length then [n - s.pending.length] else []) ++
      lengthReads len m (feed len m s c).1 (n + c.length) cs

theorem lengthReads_append (m : Nat) (s : Receiver β) (n : Nat) (cs ds : List (List β)) :
    lengthReads len m s n (cs ++ ds) =
      lengthReads len m s n cs ++
        lengthReads len m (feedAll len m s cs).1 (n + cs.flatten.length) ds := by
  induction cs generalizing s n with
  | nil => simp [lengthReads]
  | cons c cs ih =>
    simp only [List.cons_append, lengthReads, ih, List.append_assoc, feedAll, List.flatten_cons,
      List.length_append, Nat.add_assoc]

@[simp] theorem lengthReads_one (m : Nat) (s : Receiver β) (n : Nat) (c : List β) :
    lengthReads len m s n [c] =
      if s.header = 0 ∧ 2 ≤ (s.pending ++ c).length then [n - s.pending.length] else [] := by
  simp [lengthReads]

theorem settle_pending_le (m h : Nat) (held : List β) :
    (settle m h held).1.pending.length ≤ held.length := by
  rcases settle_cases m h held with ⟨-, heq⟩ | ⟨-, -, heq⟩ | ⟨-, -, heq⟩
  · simp [heq]
  · simp [heq]
  · simp [heq]

theorem feed_pending_le (len : β → β → Nat) (m : Nat) (s : Receiver β) (c : List β) :
    (feed len m s c).1.pending.length + (if s.header = 0 ∧ 2 ≤ (s.pending ++ c).length then 2 else 0)
      ≤ (s.pending ++ c).length := by
  rcases feed_cases len m s c with ⟨-, hshort, heq⟩ | ⟨a, b, held, hs, hbytes, heq⟩ | ⟨hs, heq⟩
  · rw [heq, if_neg (by omega)]
    exact Nat.le_refl _
  · rw [heq, hbytes, List.length_cons, List.length_cons, if_pos ⟨hs, by omega⟩]
    have hle := settle_pending_le m (len a b) held
    omega
  · rw [heq, if_neg (by simp [hs])]
    exact settle_pending_le m s.header _

/-- A chunk inside a frame reads the frame's length at most once, at its beginning. -/
theorem lengthReads_waits {m : Nat} {f : Frame len} {s : Receiver β} {head head' received c : List β}
    (h : Aligned [] [f] head s received)
    (h' : Aligned [] [f] head' (feed len m s c).1 (received ++ c)) (n : Nat) :
    (if s.header = 0 then [] else [n]) ++
        (if s.header = 0 ∧ 2 ≤ (s.pending ++ c).length then
          [n + received.length - s.pending.length] else []) =
      if (feed len m s c).1.header = 0 then [] else [n] := by
  have hle := feed_pending_le len m s c
  have hsplit := congrArg List.length h.split
  have hsplit' := congrArg List.length h'.split
  simp only [stream_nil, List.nil_append, List.length_append] at hsplit hsplit' hle
  have hhand := h.hand
  have hhand' := h'.hand
  generalize hh : s.header = x at hhand hle ⊢
  generalize hh' : (feed len m s c).1.header = x' at hhand' ⊢
  cases hhand with
  | none =>
    cases hhand' with
    | none =>
      simp only [List.length_nil, true_and] at hsplit hsplit' hle
      have hfew : ¬ 2 ≤ s.pending.length + c.length := by
        intro h2
        rw [if_pos h2] at hle
        omega
      simp [hfew]
    | next hrest hpos =>
      have henough : 2 ≤ s.pending.length + c.length := by
        by_contra h2
        rw [feed_short hh (by simpa using h2)] at hh'
        exact hpos hh'.symm
      have hoffset : n + received.length - s.pending.length = n := by
        rw [hsplit, List.length_nil, Nat.zero_add, Nat.add_sub_cancel]
      simp only [List.length_append, henough, hpos, hoffset, and_self, if_true, if_false,
        List.nil_append]
  | next hrest hpos =>
    cases hhand' with
    | none =>
      simp [hpos] at hsplit hsplit' hle
      omega
    | next hrest' hpos' => simp [hpos, hpos']

/-- Inside a frame nothing is handed on, and its length has been read iff it is in hand. -/
theorem feedAll_inside {m : Nat} (hm : 0 < m) {f : Frame len}
    {cs : List (List β)} (hcs : cs.flatten <+: f.bytes)
    (hlt : cs.flatten.length < f.bytes.length) :
    ∃ head, Aligned [] [f] head (feedAll len m Receiver.idle cs).1 cs.flatten ∧
      (feedAll len m Receiver.idle cs).2 = [] ∧
      ∀ n, lengthReads len m Receiver.idle n cs =
        if (feedAll len m Receiver.idle cs).1.header = 0 then [] else [n] := by
  induction cs using List.reverseRecOn with
  | nil => exact ⟨[], .idle [f], rfl, fun n => by simp [lengthReads, Receiver.idle]⟩
  | append_singleton cs c ih =>
    rw [List.flatten_append, List.flatten_singleton] at hcs hlt ⊢
    obtain ⟨head, haligned, hout, hreads⟩ :=
      ih ((List.prefix_append _ _).trans hcs) (by rw [List.length_append] at hlt; omega)
    have hstream : cs.flatten ++ c <+: stream ([] ++ [f]) := by simpa using hcs
    simp only [feedAll_snoc, lengthReads_append, lengthReads_one, hreads, hout]
    generalize (feedAll len m Receiver.idle cs).1 = s at haligned ⊢
    have hprogress := feed_progress hm haligned hstream
    cases hprogress with
    | consumes hrest _ _ _ hcomplete =>
      obtain ⟨rfl, rfl⟩ := List.cons.inj hrest
      simp at hcomplete hlt
      omega
    | strands hrest _ _ _ hcomplete =>
      obtain ⟨rfl, rfl⟩ := List.cons.inj hrest
      simp at hcomplete hlt
      omega
    | @waits head' hnext hnone _ =>
      exact ⟨head', hnext, by simp [hnone], lengthReads_waits haligned hnext⟩

/-- A whole frame, cut in any way, taken by a receiver that stands between frames. -/
theorem feedAll_group {m : Nat} (hm : 0 < m) {f : Frame len} (hf : 0 < f.payload.length)
    {g : List (List β)} (hg : g.flatten = f.bytes) (hne : ∀ c ∈ g, c ≠ []) :
    feedAll len m Receiver.idle g =
        (if m ≤ f.payload.length then (Receiver.idle, [f.payload]) else (⟨0, f.payload⟩, [])) ∧
      ∀ n, lengthReads len m Receiver.idle n g = [n] := by
  rcases List.eq_nil_or_concat g with rfl | ⟨cs, c, rfl⟩
  · simp [Frame.bytes] at hg
  rw [List.concat_eq_append] at hg hne ⊢
  have hc : c ≠ [] := hne c (by simp)
  rw [List.flatten_append, List.flatten_singleton] at hg
  have hlt : cs.flatten.length < f.bytes.length := by
    have hpos := List.length_pos_iff.mpr hc
    rw [← hg, List.length_append]
    omega
  obtain ⟨head, haligned, hout, hreads⟩ := feedAll_inside hm ⟨c, hg⟩ hlt
  have hstream : cs.flatten ++ c <+: stream ([] ++ [f]) := by simp [hg]
  have htotal : (cs.flatten ++ c).length = f.payload.length + 2 := by rw [hg, f.bytes_length]
  simp only [feedAll_snoc, lengthReads_append, lengthReads_one, hreads, hout]
  generalize (feedAll len m Receiver.idle cs).1 = s at haligned ⊢
  refine ⟨?_, fun n => ?_⟩
  · cases feed_progress hm haligned hstream with
    | waits _ _ hlate =>
      have h := hlate f [] rfl
      simp at h htotal
      omega
    | consumes hrest hlen hnext hone _ =>
      obtain ⟨rfl, rfl⟩ := List.cons.inj hrest
      have hmf : m ≤ f.payload.length := by omega
      have hidle : (feed len m s c).1 = Receiver.idle := by
        have hsplit := hnext.split
        rw [hg] at hsplit
        have hhand := hnext.hand
        generalize hh : (feed len m s c).1.header = h at hhand
        cases hhand with
        | none => exact Receiver.ext hh (show _ = [] by simpa using hsplit.symm)
      rw [if_pos hmf, hidle, hone]
      simp [delivered, hmf]
    | strands hrest hlen hnext hheld _ =>
      obtain ⟨rfl, rfl⟩ := List.cons.inj hrest
      rw [hg] at hheld
      rw [if_neg (by omega), hnext]
      simp [Frame.bytes] at hheld
      simp [hheld]
  · have hsplit := haligned.split
    have hhand := haligned.hand
    generalize hh : s.header = h at hhand
    cases hhand with
    | none =>
      simp only [stream_nil, List.nil_append] at hsplit
      have h2 : 2 ≤ (s.pending ++ c).length := by
        rw [← hsplit, htotal]
        omega
      simp [-List.length_append, h2, hsplit]
    | next _ hpos => simp [hpos]

/-- The offsets at which frames of the stream begin. -/
def AtFrameStart (fs : List (Frame len)) (o : Nat) : Prop :=
  ∃ done rest, fs = done ++ rest ∧ rest ≠ [] ∧ o = (stream done).length

/-- Exactly the frames of length at least `m` are handed on, and no length is
read anywhere but at the beginning of a frame. -/
def Resynchronises (m : Nat) (fs : List (Frame len)) (cs : List (List β)) : Prop :=
  (feedAll len m Receiver.idle cs).2 = delivered m fs ∧
    ∀ o ∈ lengthReads len m Receiver.idle 0 cs, AtFrameStart fs o

theorem feedAll_cut_long {m : Nat} (hm : 0 < m) {fs : List (Frame len)} {cs : List (List β)}
    (hcut : Cut fs cs) (hfs : ∀ f ∈ fs, m ≤ f.payload.length) :
    feedAll len m Receiver.idle cs = (Receiver.idle, delivered m fs) ∧
      ∀ n, ∀ o ∈ lengthReads len m Receiver.idle n cs,
        ∃ done rest, fs = done ++ rest ∧ rest ≠ [] ∧ o = n + (stream done).length := by
  induction hcut with
  | nil => exact ⟨rfl, fun n o ho => by simp [lengthReads] at ho⟩
  | @cons f fs g cs hg hne hrest ih =>
    have hmf := hfs f List.mem_cons_self
    obtain ⟨ihfeed, ihreads⟩ := ih fun h hh => hfs h (List.mem_cons_of_mem f hh)
    obtain ⟨hfeed, hreads⟩ := feedAll_group hm (Nat.lt_of_lt_of_le hm hmf) hg hne
    rw [if_pos hmf] at hfeed
    refine ⟨?_, fun n o ho => ?_⟩
    · rw [feedAll_append, hfeed, ihfeed]
      simp [delivered, hmf]
    · rw [lengthReads_append, hreads, hfeed, List.mem_append, List.mem_singleton] at ho
      rcases ho with rfl | ho
      · exact ⟨[], f :: fs, rfl, by simp, rfl⟩
      · obtain ⟨done, rest, rfl, hne', rfl⟩ := ihreads _ o ho
        refine ⟨f :: done, rest, rfl, hne', ?_⟩
        rw [hg, stream_cons, List.length_append, Nat.add_assoc]

theorem not_atFrameStart {done fs : List (Frame len)} {f : Frame len} {k : Nat}
    (hk : 0 < k) (hkf : k < f.bytes.length) :
    ¬ AtFrameStart (done ++ f :: fs) ((stream done).length + k) := by
  intro h'
  obtain ⟨front, rest, hsplit, -, ho⟩ := h'
  rcases List.append_eq_append_iff.mp hsplit with ⟨mid, rfl, hrest⟩ | ⟨mid, rfl, hrest⟩
  · cases mid with
    | nil =>
      simp at ho
      omega
    | cons f' mid =>
      obtain ⟨rfl, rfl⟩ := List.cons.inj hrest
      simp only [stream_append, stream_cons, List.length_append] at ho
      omega
  · simp only [stream_append, List.length_append] at ho
    omega

theorem exists_short_of_not_dropLast {m : Nat} {fs : List (Frame len)}
    (h : ¬ ∀ f ∈ fs.dropLast, m ≤ f.payload.length) :
    ∃ done f g rest, fs = done ++ f :: g :: rest ∧ (∀ d ∈ done, m ≤ d.payload.length) ∧
      f.payload.length < m := by
  induction fs with
  | nil => simp at h
  | cons f fs ih =>
    cases fs with
    | nil => simp at h
    | cons g rest =>
      by_cases hf : m ≤ f.payload.length
      · obtain ⟨done, f', g', rest', heq, hdone, hshort⟩ := ih (by simpa [hf] using h)
        refine ⟨f :: done, f', g', rest', by simp [heq], ?_, hshort⟩
        exact List.forall_mem_cons.mpr ⟨hf, hdone⟩
      · exact ⟨[], f, g, rest, rfl, by simp, by omega⟩

/-- Behind a short frame the next chunk completes a length that starts inside that frame. -/
theorem reads_inside_of_short {m : Nat} (hm : 0 < m) {done rest : List (Frame len)} {f g : Frame len}
    (hdone : ∀ d ∈ done, m ≤ d.payload.length) (hpos : 0 < f.payload.length)
    (hshort : f.payload.length < m) {cs : List (List β)} (hcut : Cut (done ++ f :: g :: rest) cs) :
    (stream done).length + 2 ∈ lengthReads len m Receiver.idle 0 cs := by
  obtain ⟨c₁, c₂, rfl, h₁, h₂⟩ := hcut.of_append
  cases h₂ with
  | @cons _ _ gf cf hgf hnef htail =>
    cases htail with
    | @cons _ _ gg cg hgg hneg _ =>
      cases gg with
      | nil => simp [Frame.bytes] at hgg
      | cons c gg =>
        have hc := List.length_pos_iff.mpr (hneg c List.mem_cons_self)
        have hlong := (feedAll_cut_long hm h₁ hdone).1
        have hgroup := (feedAll_group hm hpos hgf hnef).1
        rw [if_neg (by omega)] at hgroup
        have hlen : (gf.flatten).length = f.payload.length + 2 := by rw [hgf, f.bytes_length]
        rw [lengthReads_append, hlong, lengthReads_append, hgroup, h₁.flatten_eq]
        simp only [List.mem_append]
        refine Or.inr (Or.inr ?_)
        rw [List.cons_append, lengthReads, if_pos ⟨rfl, by simp; omega⟩]
        simp only [List.mem_append, List.mem_singleton]
        omega

theorem resynchronises_of_long {m : Nat} (hm : 0 < m) {fs : List (Frame len)}
    (hpos : ∀ f ∈ fs, 0 < f.payload.length) {cs : List (List β)} (hcut : Cut fs cs)
    (hlong : ∀ f ∈ fs.dropLast, m ≤ f.payload.length) : Resynchronises m fs cs := by
  rcases List.eq_nil_or_concat fs with rfl | ⟨front, last, rfl⟩
  · cases hcut
    exact ⟨rfl, by simp [lengthReads]⟩
  rw [List.concat_eq_append] at hcut hpos hlong ⊢
  rw [List.dropLast_concat] at hlong
  obtain ⟨c₁, c₂, rfl, h₁, h₂⟩ := hcut.of_append
  obtain ⟨hfeed, hreads⟩ := feedAll_cut_long hm h₁ hlong
  cases h₂ with
  | @cons _ _ g cs hg hne hnil =>
    cases hnil
    obtain ⟨hgroup, hgreads⟩ := feedAll_group hm (hpos last (by simp)) hg hne
    rw [List.append_nil]
    refine ⟨?_, fun o ho => ?_⟩
    · rw [feedAll_append, hfeed, hgroup]
      by_cases hlast : m ≤ last.payload.length
      · simp [delivered, hlast]
      · simp [delivered, hlast]
    · rw [lengthReads_append, hfeed, hgreads, List.mem_append, List.mem_singleton] at ho
      rcases ho with ho | rfl
      · obtain ⟨done, rest, rfl, hne', rfl⟩ := hreads 0 o ho
        exact ⟨done, rest ++ [last], by simp, by simp, by simp⟩
      · exact ⟨front, [last], rfl, by simp, by simp [h₁.flatten_eq]⟩

/-- Reading resynchronises on a boundary-respecting cut iff only the last frame may be too short. -/
theorem resynchronises_iff {m : Nat} (hm : 0 < m) {fs : List (Frame len)}
    (hpos : ∀ f ∈ fs, 0 < f.payload.length) {cs : List (List β)} (hcut : Cut fs cs) :
    Resynchronises m fs cs ↔ ∀ f ∈ fs.dropLast, m ≤ f.payload.length := by
  constructor
  · intro h'
    obtain ⟨-, hreads⟩ := h'
    by_contra hshort
    obtain ⟨done, f, g, rest, rfl, hdone, hf⟩ := exists_short_of_not_dropLast hshort
    have hposf : 0 < f.payload.length := hpos f (by simp)
    have hread := reads_inside_of_short hm hdone hposf hf hcut
    exact not_atFrameStart (f := f) (by omega) (by rw [f.bytes_length]; omega) (hreads _ hread)
  · exact resynchronises_of_long hm hpos hcut

end NetgameFormal.Framing
