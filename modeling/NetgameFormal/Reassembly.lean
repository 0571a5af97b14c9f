import NetgameFormal.Reception

/-!
# Reassembly of frames

For a connection of the gateway (minimum length 6) and for a client socket (2):
what is handed on is always an initial segment of the stream's frames and no byte
is lost. Nothing complete is left waiting exactly when no chunk ends two frames,
and too-short frames are skipped as a whole exactly when nothing follows them.
-/

set_option autoImplicit false

namespace NetgameFormal

open Framing (Receiver Frame)

variable {m : Nat} {ds : List Delivery} {now : Receiver Byte} {faults : List Byte → Prop}
variable {fs : List (Frame beNat)}

theorem rebuiltFrame_injective : Function.Injective rebuiltFrame := by
  intro payload payload' h
  rw [rebuiltFrame_eq, rebuiltFrame_eq] at h
  exact (List.cons.inj (List.cons.inj h).2).2

theorem map_rebuiltFrame (fs : List (Frame beNat)) :
    (fs.map Frame.payload).map rebuiltFrame = fs.map Frame.bytes := by
  rw [List.map_map]
  apply List.map_congr_left
  intro f _
  exact rebuiltFrame_payload f

theorem map_rebuiltFrame_eq_iff {payloads : List (List Byte)} :
    payloads.map rebuiltFrame = fs.map Frame.bytes ↔ payloads = fs.map Frame.payload := by
  rw [← map_rebuiltFrame]
  exact (List.map_injective_iff.mpr rebuiltFrame_injective).eq_iff

theorem Fed.handed_eq_iff (h : Fed m ds now) :
    handed ds = fs.map Frame.bytes ↔
      (Framing.feedAll beNat m .idle (ds.map Delivery.chunk)).2 = fs.map Frame.payload := by
  rw [h.feedAll_eq.2, map_rebuiltFrame_eq_iff]

def packageFrame (id protId : Int) (body : List Byte) (h : body.length < 65532) : Frame beNat where
  hi := hiByte (body.length + 4 : Nat)
  lo := loByte (body.length + 4 : Nat)
  payload := hiByte id :: loByte id :: hiByte protId :: loByte protId :: body
  declared := beNat_written (by omega)

def clientHandshake : Frame beNat := packageFrame 3 100 gatewayMd5.client (by decide)

/-! ## No complete frame is left waiting -/

/-- After every chunk, all frames whose last byte has arrived have been handed on. -/
def NoFrameWaits (fs : List (Frame beNat)) (ds : List Delivery) : Prop :=
  ∀ ds₁, ds₁ <+: ds → handed ds₁ = (Framing.arrived fs (received ds₁).length).map Frame.bytes

theorem Fed.noFrameWaits_iff (h : Fed m ds now) :
    NoFrameWaits fs ds ↔ Framing.NoneWaiting m fs (ds.map Delivery.chunk) := by
  have hfront : ∀ ds₁, ds₁ <+: ds → ∃ mid, Fed m ds₁ mid := by
    rintro ds₁ ⟨tail, rfl⟩
    exact h.of_append
  constructor
  · intro hall front hfront'
    obtain ⟨ds₁, hpre, rfl⟩ := List.prefix_map_iff.mp hfront'
    obtain ⟨mid, hmid⟩ := hfront ds₁ hpre
    exact hmid.handed_eq_iff.mp (hall ds₁ hpre)
  · intro hall ds₁ hpre
    obtain ⟨mid, hmid⟩ := hfront ds₁ hpre
    exact hmid.handed_eq_iff.mpr (hall _ (hpre.map Delivery.chunk))

/-- Either end keeps up with a stream of acceptable frames exactly when no chunk ends two of them. -/
theorem no_frame_waits_iff (h : Reception m ds now faults)
    (hfs : ∀ f ∈ fs, m ≤ f.payload.length) (hcut : received ds <+: Framing.stream fs) :
    NoFrameWaits fs ds ↔ Framing.OneEndPerChunk fs (ds.map Delivery.chunk) := by
  obtain ⟨hm, hfed, -⟩ := h.fed
  rw [hfed.noFrameWaits_iff]
  exact Framing.noneWaiting_iff hm hfs hcut

theorem Reception.handed_eq (h : Reception m ds now faults) :
    handed ds =
      (Framing.feedAll beNat m .idle (ds.map Delivery.chunk)).2.map rebuiltFrame :=
  h.fed.2.1.feedAll_eq.2

theorem no_frame_waits_cut_handshake :
    ∃ ds now faults, Reception 6 ds now faults ∧
      ds.map Delivery.chunk =
        [[0, 36], clientHandshake.payload, clientHandshake.bytes] ∧
      NoFrameWaits [clientHandshake, clientHandshake] ds := by
  have hrun : ((execute (dispatchSocketMessage gatewayMd5) FreshAccept (gateInit ⟨2, by decide⟩ 7)
      (⟨.accept 7 5, 0⟩ :: [[0, 36], clientHandshake.payload, clientHandshake.bytes].map
        fun chunk => ⟨.data 5 chunk, 0⟩)).map fun run =>
      run.1.all fun r => decide (r.post.hash.Holds 5 1 ∧ .close 5 ∉ r.output)) = some true := by
    decide +kernel
  obtain ⟨ds, now, faults, h, hchunks⟩ := gateway_reception hrun
  refine ⟨ds, now, faults, h, hchunks, (no_frame_waits_iff h ?_ ?_).mpr ?_⟩
  · decide
  · rw [received, hchunks]
    decide
  · rw [hchunks]
    decide

def emptyPackage : Frame beNat := packageFrame 5 1 [] (by decide)

/-- Two frames in one chunk: one is handed on, the other waits for the next chunk. -/
theorem coalesced_frame_waits :
    (∃ ds now faults, Reception 6 ds now faults ∧
      ds.map Delivery.chunk = [clientHandshake.bytes ++ clientHandshake.bytes] ∧
      ¬ NoFrameWaits [clientHandshake, clientHandshake] ds) ∧
    ∃ ds now faults, Reception 2 ds now faults ∧
      ds.map Delivery.chunk = [emptyPackage.bytes ++ emptyPackage.bytes] ∧
      ¬ NoFrameWaits [emptyPackage, emptyPackage] ds := by
  constructor
  · have hrun : ((execute (dispatchSocketMessage gatewayMd5) FreshAccept
        (gateInit ⟨2, by decide⟩ 7)
        (⟨.accept 7 5, 0⟩ :: [clientHandshake.bytes ++ clientHandshake.bytes].map
          fun chunk => ⟨.data 5 chunk, 0⟩)).map fun run =>
        run.1.all fun r => decide (r.post.hash.Holds 5 1 ∧ .close 5 ∉ r.output)) = some true := by
      decide +kernel
    obtain ⟨ds, now, faults, h, hchunks⟩ := gateway_reception hrun
    refine ⟨ds, now, faults, h, hchunks, ?_⟩
    intro hnone
    have hall := congrArg List.length (hnone ds (List.prefix_refl ds))
    rw [h.handed_eq, received, hchunks] at hall
    revert hall
    decide
  · obtain ⟨ds, now, faults, h, hchunks⟩ := @client_reception 3
      [emptyPackage.bytes ++ emptyPackage.bytes] (by decide) (by decide) (by decide)
    refine ⟨ds, now, faults, h, hchunks, ?_⟩
    intro hnone
    have hall := congrArg List.length (hnone ds (List.prefix_refl ds))
    rw [h.handed_eq, received, hchunks] at hall
    revert hall
    decide

/-! ## Nothing is lost -/

/-- The two length bytes of a header that has been parsed, if it is not zero. -/
def ParsedHeader (header : Nat) (head : List Byte) : Prop :=
  if header = 0 then head = [] else ∃ hi lo, head = [hi, lo] ∧ beNat hi lo = header

theorem parsedHeader_of_inHand {rest : List (Frame beNat)} {header : Nat} {head : List Byte}
    (h : Framing.InHand rest header head) : ParsedHeader header head := by
  unfold ParsedHeader
  cases h with
  | none => rw [if_pos rfl]
  | @next f fs _ hpos =>
    rw [if_neg hpos]
    exact ⟨f.hi, f.lo, rfl, f.declared⟩

/-- Whatever the cut, an initial segment of the acceptable frames has been handed on, the other
bytes are in the header or in the databuffer, and no next chunk makes an assertion fail. -/
theorem reassembly_sound (h : Reception m ds now faults) (hfs : Framing.Acceptable m fs)
    (hcut : received ds <+: Framing.stream fs) :
    (∃ done rest head, fs = done ++ rest ∧
      handed ds = (done.filter (m ≤ ·.payload.length)).map Frame.bytes ∧
      ParsedHeader now.header head ∧ received ds = Framing.stream done ++ head ++ now.pending) ∧
    ∀ chunk, ¬ faults chunk := by
  obtain ⟨hm, hfed, hsafe⟩ := h.fed
  obtain ⟨done, rest, head, hsplit, haligned, hout⟩ := Framing.feedAll_aligned hm hfs hcut
  obtain ⟨hnow, -⟩ := hfed.feedAll_eq
  rw [hnow] at haligned
  refine ⟨⟨done, rest, head, hsplit, ?_, parsedHeader_of_inHand haligned.hand, haligned.split⟩,
    hsafe⟩
  rw [hfed.handed_eq_iff]
  exact hout

theorem reassembly_of_three_frames :
    ∃ ds now faults, Reception 6 ds now faults ∧
      (∃ done rest head, [clientHandshake, ⟨0, 0, [], rfl⟩, clientHandshake] = done ++ rest ∧
        handed ds = (done.filter (6 ≤ ·.payload.length)).map Frame.bytes ∧
        ParsedHeader now.header head ∧
        clientHandshake.bytes ++ [0, 0, 0, 36, 0] = Framing.stream done ++ head ++ now.pending) ∧
      ∀ chunk, ¬ faults chunk := by
  let chunks : List (List Byte) := [[0], 36 :: clientHandshake.payload, [0, 0], [0, 36, 0]]
  have hrun : ((execute (dispatchSocketMessage gatewayMd5) FreshAccept (gateInit ⟨2, by decide⟩ 7)
      (⟨.accept 7 5, 0⟩ :: chunks.map fun chunk => ⟨.data 5 chunk, 0⟩)).map fun run =>
      run.1.all fun r => decide (r.post.hash.Holds 5 1 ∧ .close 5 ∉ r.output)) = some true := by
    decide +kernel
  obtain ⟨ds, now, faults, h, hchunks⟩ := gateway_reception hrun
  have hreceived : received ds = clientHandshake.bytes ++ [0, 0, 0, 36, 0] := by
    rw [received, hchunks]
    decide
  have hfs : Framing.Acceptable 6 [clientHandshake, ⟨0, 0, [], rfl⟩, clientHandshake] := by
    simp only [Framing.Acceptable, List.forall_mem_cons]
    decide
  refine ⟨ds, now, faults, h, ?_⟩
  rw [← hreceived]
  apply reassembly_sound h hfs
  rw [hreceived]
  decide

/-! ## Too-short frames -/

/-- Exactly the frames of length at least `m` are handed on, and no byte but those where a frame
starts is taken for the first byte of a length. -/
def SkipsShort (m : Nat) (fs : List (Frame beNat)) (ds : List Delivery) : Prop :=
  handed ds = (fs.filter (m ≤ ·.payload.length)).map Frame.bytes ∧
    ∀ o ∈ lengthReads 0 ds, Framing.AtFrameStart fs o

/-- Too-short frames are skipped as a whole exactly when none of them is followed by a frame. -/
theorem short_frames_skipped_iff (h : Reception m ds now faults)
    (hpos : ∀ f ∈ fs, 0 < f.payload.length) (hcut : Framing.Cut fs (ds.map Delivery.chunk)) :
    SkipsShort m fs ds ↔ ∀ f ∈ fs.dropLast, m ≤ f.payload.length := by
  obtain ⟨hm, hfed, -⟩ := h.fed
  rw [← Framing.resynchronises_iff hm hpos hcut]
  unfold SkipsShort Framing.Resynchronises
  rw [hfed.handed_eq_iff, hfed.lengthReads_eq]
  rfl

def shortFrame : Frame beNat := ⟨0, 1, [7], rfl⟩

theorem short_last_frame_skipped :
    ∃ ds now faults, Reception 6 ds now faults ∧
      ds.map Delivery.chunk = [clientHandshake.bytes, shortFrame.bytes] ∧
      SkipsShort 6 [clientHandshake, shortFrame] ds := by
  have hrun : ((execute (dispatchSocketMessage gatewayMd5) FreshAccept (gateInit ⟨2, by decide⟩ 7)
      (⟨.accept 7 5, 0⟩ :: [clientHandshake.bytes, shortFrame.bytes].map
        fun chunk => ⟨.data 5 chunk, 0⟩)).map fun run =>
      run.1.all fun r => decide (r.post.hash.Holds 5 1 ∧ .close 5 ∉ r.output)) = some true := by
    decide +kernel
  obtain ⟨ds, now, faults, h, hchunks⟩ := gateway_reception hrun
  refine ⟨ds, now, faults, h, hchunks, (short_frames_skipped_iff h ?_ ?_).mpr ?_⟩
  · decide
  · rw [hchunks]
    refine .cons (g := [clientHandshake.bytes]) (by simp) (by decide) ?_
    exact .cons (g := [shortFrame.bytes]) (by simp) (by decide) .nil
  · decide

/-- The payload byte of a short frame becomes the first byte of the next length. -/
theorem short_frame_swallows_next :
    (∃ ds now faults, Reception 6 ds now faults ∧
      Framing.Cut [shortFrame, clientHandshake] (ds.map Delivery.chunk) ∧
      ¬ SkipsShort 6 [shortFrame, clientHandshake] ds) ∧
    ∃ ds now faults, Reception 2 ds now faults ∧
      Framing.Cut [shortFrame, clientHandshake] (ds.map Delivery.chunk) ∧
      ¬ SkipsShort 2 [shortFrame, clientHandshake] ds := by
  have hcut : Framing.Cut [shortFrame, clientHandshake]
      [shortFrame.bytes, clientHandshake.bytes] := by
    refine .cons (g := [shortFrame.bytes]) (by simp) (by decide) ?_
    exact .cons (g := [clientHandshake.bytes]) (by simp) (by decide) .nil
  have hlost : ∀ {m ds now faults}, m = 6 ∨ m = 2 → Reception m ds now faults →
      ds.map Delivery.chunk = [shortFrame.bytes, clientHandshake.bytes] →
      ¬ SkipsShort m [shortFrame, clientHandshake] ds := by
    intro m ds now faults hm h hchunks hskips
    have hall := congrArg List.length hskips.1
    rw [h.handed_eq, hchunks] at hall
    rcases hm with rfl | rfl
    · revert hall
      decide
    · revert hall
      decide
  have hrun : ((execute (dispatchSocketMessage gatewayMd5) FreshAccept (gateInit ⟨2, by decide⟩ 7)
      (⟨.accept 7 5, 0⟩ :: [shortFrame.bytes, clientHandshake.bytes].map
        fun chunk => ⟨.data 5 chunk, 0⟩)).map fun run =>
      run.1.all fun r => decide (r.post.hash.Holds 5 1 ∧ .close 5 ∉ r.output)) = some true := by
    decide +kernel
  constructor
  · obtain ⟨ds, now, faults, h, hchunks⟩ := gateway_reception hrun
    exact ⟨ds, now, faults, h, hchunks ▸ hcut, hlost (Or.inl rfl) h hchunks⟩
  · obtain ⟨ds, now, faults, h, hchunks⟩ := @client_reception 3
      [shortFrame.bytes, clientHandshake.bytes] (by decide) (by decide) (by decide)
    exact ⟨ds, now, faults, h, hchunks ▸ hcut, hlost (Or.inr rfl) h hchunks⟩

end NetgameFormal
