import NetgameFormal.Relay

/-!
# From the client to the callback of the server

The stream that the socket layer takes for the server carries the frames of all
clients, and the server's socket cuts it into chunks anew. Sorted by the id in
the frames, what arrives in the server's callback is what each client has said.
-/

set_option autoImplicit false

namespace NetgameFormal

open Framing (Frame stream delivered)

/-- The buffer of a send to connection `s` that the socket layer has taken. -/
def Act.takenFor (s : Int) : Act → Option (List Byte)
  | .send _ target buf wsz => if target = s ∧ 0 ≤ wsz then some buf else none
  | .handshake _ _ => none
  | .handlemsg _ _ => none
  | .malloc _ => none
  | .free _ => none
  | .close _ => none
  | .start _ => none
  | .luaDispatch _ _ => none

def streamTo (s : Int) (acts : List Act) : List (List Byte) := acts.filterMap (Act.takenFor s)

/-- The frame has the two id bytes of connection `c`. -/
def taggedWith (c : Int) (buf : List Byte) : Bool :=
  decide (buf.getD 2 0#8 = hiByte c ∧ buf.getD 3 0#8 = loByte c)

/-- What the server and the socket layer have to do for client `c` to be heard, in a run that accepts
it in record `r`. No other connection has the same id bytes, and `c` has no earlier life. -/
structure Uplink (s c : Int) (front : List (Record Gate GateInput Act))
    (r : Record Gate GateInput Act) (mid : List (Record Gate GateInput Act)) : Prop where
  forwards : ∀ q ∈ front ++ r :: mid, ∀ site buf w,
    .send site s buf w ∈ q.output → site = .toServer
  alone : ∀ q ∈ front ++ r :: mid, ∀ d data, q.input.msg = .data d data →
    hiByte d = hiByte c → loByte d = loByte c → d = c
  first : ∀ q ∈ front, ∀ data, q.input.msg ≠ .data c data
  served : ∀ q ∈ mid, ServedBy s c q
  taken : ∀ q ∈ mid, ∀ data, q.input.msg = .data c data → 0 ≤ q.input.wsz

variable {md5 : HandshakeMd5} {g g' : Gate} {i : GateInput} {o : List Act} {c s : Int}

@[simp] theorem streamTo_append (s : Int) (o o' : List Act) :
    streamTo s (o ++ o') = streamTo s o ++ streamTo s o' := by
  simp [streamTo]

theorem mem_streamTo {buf : List Byte} :
    buf ∈ streamTo s o ↔ ∃ site w, .send site s buf w ∈ o ∧ 0 ≤ w := by
  rw [streamTo, List.mem_filterMap]
  constructor
  · intro h
    obtain ⟨x, hx, htaken⟩ := h
    cases x with
    | send site target buf' w =>
      simp only [Act.takenFor, Option.ite_none_right_eq_some, Option.some.injEq] at htaken
      obtain ⟨⟨rfl, hw⟩, rfl⟩ := htaken
      exact ⟨site, w, hx, hw⟩
    | handshake _ _ => cases htaken
    | handlemsg _ _ => cases htaken
    | malloc _ => cases htaken
    | free _ => cases htaken
    | close _ => cases htaken
    | start _ => cases htaken
    | luaDispatch _ _ => cases htaken
  · intro h
    obtain ⟨site, w, hmem, hw⟩ := h
    exact ⟨_, hmem, by simp [Act.takenFor, hw]⟩

theorem streamTo_eq {wsz : Int} (h : ∀ site target buf w, .send site target buf w ∈ o → w = wsz)
    (hw : 0 ≤ wsz) : streamTo s o = ((sendsOf o).filter fun p => p.1 = s).map Prod.snd := by
  induction o with
  | nil => rfl
  | cons x o ih =>
    have ih' := ih fun site target buf w hmem => h site target buf w (List.mem_cons_of_mem x hmem)
    cases x with
    | send site target buf w =>
      obtain rfl := h site target buf w List.mem_cons_self
      by_cases ht : target = s
      · simpa [streamTo, sendsOf, Act.takenFor, Act.sent, ht, hw] using ih'
      · simpa [streamTo, sendsOf, Act.takenFor, Act.sent, ht] using ih'
    | handshake _ _ => exact ih'
    | handlemsg _ _ => exact ih'
    | malloc _ => exact ih'
    | free _ => exact ih'
    | close _ => exact ih'
    | start _ => exact ih'
    | luaDispatch _ _ => exact ih'

theorem GateStep.send_wsz (hok : GateOk g) (h : GateStep md5 g i g' o) :
    ∀ site target buf w, .send site target buf w ∈ o → w = i.wsz := by
  intro site target buf w hmem
  obtain ⟨id, data, a, frame, rfl, -⟩ := (h.send_mem_iff hok).mp hmem
  rfl

theorem stamped_bytes {payload : List Byte} (h6 : 6 ≤ payload.length) (d : Int) :
    ∃ rest, stamped d payload =
      hiByte payload.length :: loByte payload.length :: hiByte d :: loByte d :: rest := by
  obtain ⟨x, y, rest, rfl⟩ := exists_cons_two (Nat.le_trans (by decide) h6)
  exact ⟨rest, by rw [stamped, rebuiltFrame_eq, writeBlock_two]⟩

theorem taggedWith_stamped {payload : List Byte} (h6 : 6 ≤ payload.length) (d : Int) :
    taggedWith c (stamped d payload) = true ↔ hiByte d = hiByte c ∧ loByte d = loByte c := by
  obtain ⟨rest, heq⟩ := stamped_bytes h6 d
  rw [heq, taggedWith, decide_eq_true_iff]
  rfl

theorem GateStep.streamTo_mem (hok : GateOk g) (h : GateStep md5 g i g' o)
    (hforwards : ∀ site buf w, .send site s buf w ∈ o → site = .toServer) {buf : List Byte}
    (hbuf : buf ∈ streamTo s o) :
    ∃ d data payload, i.msg = .data d data ∧ buf = stamped d payload ∧ 6 ≤ payload.length ∧
      payload.length < 65536 := by
  obtain ⟨site, w, hmem, -⟩ := mem_streamTo.mp hbuf
  obtain rfl := hforwards site buf w hmem
  obtain ⟨d, data, a, frame, rfl, ha, htake, hsend⟩ := (h.send_mem_iff hok).mp hmem
  obtain ⟨payload, hframe, h6, hlt⟩ := RefConn.take_some (hok.header a) htake
  obtain ⟨-, -, -, -, hbytes⟩ := refSend_toServer_iff.mp hsend
  refine ⟨d, data, payload, rfl, ?_, h6, hlt⟩
  rw [hbytes, hframe]
  rfl

theorem GateStep.stream_elsewhere (hok : GateOk g) (h : GateStep md5 g i g' o)
    (hforwards : ∀ site buf w, .send site s buf w ∈ o → site = .toServer)
    (hother : ∀ d data, i.msg = .data d data → ¬ (hiByte d = hiByte c ∧ loByte d = loByte c)) :
    (streamTo s o).filter (taggedWith c) = [] := by
  apply List.filter_eq_nil_iff.mpr
  intro buf hbuf
  obtain ⟨d, data, payload, hi, rfl, h6, -⟩ := h.streamTo_mem hok hforwards hbuf
  rw [taggedWith_stamped h6]
  exact hother d data hi

theorem GateStep.stream_own (hok : GateOk g) (h : GateStep md5 g i g' o)
    (hforwards : ∀ site buf w, .send site s buf w ∈ o → site = .toServer) {data : List Byte}
    (hi : i.msg = .data c data) (hw : 0 ≤ i.wsz) :
    (streamTo s o).filter (taggedWith c) = ((sendsOf o).filter fun p => p.1 = s).map Prod.snd := by
  rw [← streamTo_eq (h.send_wsz hok) hw]
  apply List.filter_eq_self.mpr
  intro buf hbuf
  obtain ⟨d, data', payload, hi', rfl, h6, -⟩ := h.streamTo_mem hok hforwards hbuf
  rw [hi] at hi'
  obtain ⟨rfl, -⟩ := GateMessage.data.inj hi'
  exact (taggedWith_stamped h6 c).mpr ⟨rfl, rfl⟩

theorem streamTo_outputsOf (s : Int) (tr : List (Record Gate GateInput Act)) :
    streamTo s (outputsOf tr) = tr.flatMap fun q => streamTo s q.output := by
  rw [outputsOf, streamTo, List.filterMap_flatMap]
  rfl

theorem streamTo_filter (s c : Int) (tr : List (Record Gate GateInput Act)) :
    (streamTo s (outputsOf tr)).filter (taggedWith c) =
      tr.flatMap fun q => (streamTo s q.output).filter (taggedWith c) := by
  rw [streamTo_outputsOf, List.filter_flatMap]

section
variable {front mid : List (Record Gate GateInput Act)} {r q : Record Gate GateInput Act}

theorem Uplink.stream_other (hup : Uplink s c front r mid) (hq : q ∈ front ++ r :: mid)
    (hrecord : GateOk q.pre ∧ GateStep md5 q.pre q.input q.post q.output)
    (hother : ∀ data, q.input.msg ≠ .data c data) :
    (streamTo s q.output).filter (taggedWith c) = [] := by
  obtain ⟨hok, hstep⟩ := hrecord
  apply hstep.stream_elsewhere hok (hup.forwards q hq)
  intro d data hi hbytes
  have hd := hup.alone q hq d data hi hbytes.1 hbytes.2
  exact hother data (by rw [hi, hd])

theorem Uplink.stream_record (hup : Uplink s c front r mid) (hq : q ∈ mid)
    (hrecord : GateOk q.pre ∧ GateStep md5 q.pre q.input q.post q.output)
    (htarget : ∀ p ∈ relayedBy c q, p.1 = s) :
    (streamTo s q.output).filter (taggedWith c) = (relayedBy c q).map Prod.snd := by
  have hall : q ∈ front ++ r :: mid := by simp [hq]
  by_cases hdata : ∃ data, q.input.msg = .data c data
  · obtain ⟨data, hi⟩ := hdata
    obtain ⟨hok, hstep⟩ := hrecord
    have hsends : relayedBy c q = sendsOf q.output := by
      rw [relayedBy, hi]
      exact if_pos rfl
    rw [hsends] at htarget ⊢
    rw [hstep.stream_own hok (hup.forwards q hall) hi (hup.taken q hq data hi)]
    congr 1
    apply List.filter_eq_self.mpr
    exact fun p hp => decide_eq_true (htarget p hp)
  · have hother : ∀ data, q.input.msg ≠ .data c data := fun data heq => hdata ⟨data, heq⟩
    rw [hup.stream_other hall hrecord hother, relayedBy_of_ne hother]
    rfl

/-- The frames of `c` in the stream to the server are those relayed for it. -/
theorem Uplink.stream_eq {max : Capacity} {listenId : Int}
    (h : Exec (dispatchSocketMessage md5) FreshAccept (gateInit max listenId) (front ++ r :: mid) g)
    (hlives : Lives c r mid) (hup : Uplink s c front r mid)
    (hrelayed : ∀ p ∈ relayed c mid, p.1 = s) :
    (streamTo s (outputsOf (front ++ r :: mid))).filter (taggedWith c) =
      (relayed c mid).map Prod.snd := by
  have hrecord := gate_record h
  have hfront : front.flatMap (fun q => (streamTo s q.output).filter (taggedWith c)) = [] := by
    apply List.flatMap_eq_nil_iff.mpr
    intro q hq
    have hall : q ∈ front ++ r :: mid := List.mem_append_left _ hq
    exact hup.stream_other hall (hrecord q hall) (hup.first q hq)
  have haccept : (streamTo s r.output).filter (taggedWith c) = [] := by
    have hall : r ∈ front ++ r :: mid := by simp
    apply hup.stream_other hall (hrecord r hall)
    intro data hmsg
    obtain ⟨l, hl⟩ := hlives.accepted
    rw [hl] at hmsg
    cases hmsg
  have hmid : mid.flatMap (fun q => (streamTo s q.output).filter (taggedWith c)) =
      mid.flatMap fun q => (relayedBy c q).map Prod.snd := by
    apply List.flatMap_congr
    intro q hq
    apply hup.stream_record hq (hrecord q (by simp [hq]))
    intro p hp
    exact hrelayed p (List.mem_flatMap.mpr ⟨q, hq, hp⟩)
  rw [streamTo_filter, List.flatMap_append, List.flatMap_cons, hfront, haccept, hmid, relayed,
    List.map_flatMap]
  rfl

end

/-! ## The server's socket -/

theorem stamped_frame {payload : List Byte} (h6 : 6 ≤ payload.length)
    (hlt : payload.length < 65536) (d : Int) :
    ∃ f : Frame beNat, f.bytes = stamped d payload ∧ 6 ≤ f.payload.length := by
  obtain ⟨rest, heq⟩ := stamped_bytes h6 d
  have hlen : (stamped d payload).length = payload.length + 2 := writeBlock_length _ _ _
  rw [heq] at hlen
  simp only [List.length_cons, Nat.add_right_cancel_iff] at hlen
  refine ⟨⟨hiByte payload.length, loByte payload.length, hiByte d :: loByte d :: rest, ?_⟩, ?_, ?_⟩
  · rw [beNat_written hlt, ← hlen]
    rfl
  · rw [heq]
    rfl
  · simp only [List.length_cons]
    omega

theorem exists_frames {l : List (List Byte)}
    (h : ∀ buf ∈ l, ∃ f : Frame beNat, f.bytes = buf ∧ 6 ≤ f.payload.length) :
    ∃ fs : List (Frame beNat), l = fs.map Frame.bytes ∧ ∀ f ∈ fs, 6 ≤ f.payload.length := by
  induction l with
  | nil => exact ⟨[], rfl, by simp⟩
  | cons buf l ih =>
    obtain ⟨f, rfl, hf⟩ := h buf List.mem_cons_self
    obtain ⟨fs, rfl, hfs⟩ := ih fun buf' hbuf' => h buf' (List.mem_cons_of_mem _ hbuf')
    refine ⟨f :: fs, rfl, ?_⟩
    intro f' hf'
    rcases List.mem_cons.mp hf' with rfl | hf'
    · exact hf
    · exact hfs f' hf'

theorem streamTo_frames {max : Capacity} {listenId : Int} {tr : List (Record Gate GateInput Act)}
    (h : Exec (dispatchSocketMessage md5) FreshAccept (gateInit max listenId) tr g)
    (hforwards : ∀ q ∈ tr, ∀ site buf w, .send site s buf w ∈ q.output → site = .toServer) :
    ∃ fs : List (Frame beNat), streamTo s (outputsOf tr) = fs.map Frame.bytes ∧
      ∀ f ∈ fs, 6 ≤ f.payload.length := by
  have hframe : ∀ buf ∈ streamTo s (outputsOf tr),
      ∃ f : Frame beNat, f.bytes = buf ∧ 6 ≤ f.payload.length := by
    intro buf hbuf
    obtain ⟨site, w, hmem, hw⟩ := mem_streamTo.mp hbuf
    obtain ⟨q, hq, hout⟩ := List.mem_flatMap.mp hmem
    obtain ⟨hok, hstep⟩ := gate_record h q hq
    obtain ⟨d, data, payload, -, rfl, h6, hlt⟩ :=
      hstep.streamTo_mem hok (hforwards q hq) (mem_streamTo.mpr ⟨site, w, hout, hw⟩)
    exact stamped_frame h6 hlt d
  exact exists_frames hframe

theorem client_calledBack {ok : Socket → ClientInput → Prop} {fd : Int} (hfd : fd ≠ -1)
    {tr : List (Record Socket ClientInput ClientAct)} {sock : Socket}
    (h : Exec clientStep ok (socketConnect socketNew fd) tr sock)
    (hopen : ∀ q ∈ tr, ¬ Closes q.output) :
    calledBack (outputsOf tr) = handed (tr.filterMap clientDelivery) := by
  induction h with
  | nil => rfl
  | @snoc tr sock sock' i o hrun _ hstep ih =>
    have hbefore : ∀ q ∈ tr, ¬ Closes q.output := fun q hq => hopen q (List.mem_append_left _ hq)
    obtain ⟨hok, hs, -⟩ := client_fed hfd hrun hbefore
    have hlive : ¬ Closes o := hopen ⟨sock, i, o, sock'⟩ (by simp)
    rw [outputsOf_snoc, calledBack_append, ih hbefore, filterMap_snoc, handed, handed,
      List.flatMap_append]
    congr 1
    cases hi : i.chunk with
    | none =>
      obtain ⟨-, -, -, hquiet⟩ := clientStep_other hok hs hi hstep hlive
      simp [clientDelivery, hi, hquiet]
    | some data => simp [clientDelivery, hi]

/-- The callback of a socket that is fed an initial part of a stream of frames. It gets all of them
when all of the stream is there and no chunk ends two of them. -/
theorem client_prefix {ok : Socket → ClientInput → Prop} {fd : Int} (hfd : fd ≠ -1)
    {tr : List (Record Socket ClientInput ClientAct)} {sock : Socket}
    (h : Exec clientStep ok (socketConnect socketNew fd) tr sock)
    (hopen : ∀ q ∈ tr, ¬ Closes q.output) {fs : List (Frame beNat)}
    (hlong : ∀ f ∈ fs, 2 ≤ f.payload.length)
    (hstream : received (tr.filterMap clientDelivery) <+: stream fs) :
    calledBack (outputsOf tr) <+: fs.map Frame.bytes ∧
      (received (tr.filterMap clientDelivery) = stream fs →
        Framing.OneEndPerChunk fs ((tr.filterMap clientDelivery).map Delivery.chunk) →
        calledBack (outputsOf tr) = fs.map Frame.bytes) := by
  obtain ⟨-, -, hfed⟩ := client_fed hfd h hopen
  obtain ⟨-, hhanded⟩ := hfed.feedAll_eq
  have hbytes : rebuiltFrame ∘ Frame.payload = (Frame.bytes : Frame beNat → List Byte) := by
    funext f
    exact rebuiltFrame_payload f
  rw [client_calledBack hfd h hopen, hhanded]
  constructor
  · have hgood : Framing.Acceptable 2 fs := fun f hf => Or.inr (hlong f hf)
    obtain ⟨done, rest, head, rfl, -, hout⟩ := Framing.feedAll_aligned (by decide) hgood hstream
    have hdone : ∀ f ∈ done, 2 ≤ f.payload.length := fun f hf => hlong f (List.mem_append_left _ hf)
    rw [hout, Framing.delivered_eq_map hdone, List.map_map, List.map_append, hbytes]
    exact List.prefix_append _ _
  · intro hall hone
    have hnone := (Framing.noneWaiting_iff (by decide) hlong hstream).mpr hone
    have hout := hnone _ (List.prefix_refl _)
    have hflatten : ((tr.filterMap clientDelivery).map Delivery.chunk).flatten = stream fs := hall
    rw [hout, hflatten, Framing.arrived_stream, List.map_map, hbytes]

section
variable {max : Capacity} {listenId fd : Int} {front mid : List (Record Gate GateInput Act)}
variable {r : Record Gate GateInput Act} {hello : Frame beNat} {fs : List (Frame beNat)}
variable {ok : Socket → ClientInput → Prop} {tr : List (Record Socket ClientInput ClientAct)}
variable {sock : Socket}

theorem RelayState.targets {done rest : List (Frame beNat)} {head : List Byte}
    {chunks : List (List Byte)} {v : RefConn} {sent : List (Int × List Byte)}
    (h : RelayState s c hello fs done rest head chunks v sent) : ∀ p ∈ sent, p.1 = s := by
  intro p hp
  rw [h.sent] at hp
  obtain ⟨payload, -, rfl⟩ := List.mem_map.mp hp
  rfl

theorem map_snd_stamped (s c : Int) (payloads : List (List Byte)) :
    (payloads.map fun payload => (s, stamped c payload)).map Prod.snd =
      payloads.map (stamped c) := by
  rw [List.map_map]
  rfl

/-- Nothing is added, reordered or changed on the way. -/
theorem heard_prefix
    (h : Exec (dispatchSocketMessage md5) FreshAccept (gateInit max listenId) (front ++ r :: mid) g)
    (hlives : Lives c r mid) (hc : Speaks md5.client hello fs) (hs : 0 < s)
    (hup : Uplink s c front r mid) (hstream : (chunksOf c mid).flatten <+: stream (hello :: fs))
    (hfd : fd ≠ -1) (hsocket : Exec clientStep ok (socketConnect socketNew fd) tr sock)
    (hopen : ∀ q ∈ tr, ¬ Closes q.output)
    (hwire : received (tr.filterMap clientDelivery) <+:
      (streamTo s (outputsOf (front ++ r :: mid))).flatten) :
    (calledBack (outputsOf tr)).filter (taggedWith c) <+: (delivered 6 fs).map (stamped c) := by
  obtain ⟨a, hok, ha, hfresh, hmid⟩ := hlives.slot h
  obtain ⟨-, -, -, done, rest, head, hstate⟩ :=
    relay_run hok ha hfresh hc hs hmid hlives.stays hup.served hstream
  obtain ⟨sent, hsent, hlong⟩ := streamTo_frames (s := s) h hup.forwards
  rw [hsent] at hwire
  have hread : received (tr.filterMap clientDelivery) <+: stream sent := by
    rw [stream, List.flatMap_def]
    exact hwire
  obtain ⟨hsome, -⟩ :=
    client_prefix hfd hsocket hopen (fun f hf => Nat.le_trans (by decide) (hlong f hf)) hread
  have hfilter := hsome.filter (taggedWith c)
  rw [← hsent, hup.stream_eq h hlives hstate.targets] at hfilter
  have hmap := (hstate.sent_prefix hc).map Prod.snd
  rw [map_snd_stamped] at hmap
  exact hfilter.trans hmap

/-- Nothing is left behind when no chunk ends two frames and everything has arrived. -/
theorem heard_all
    (h : Exec (dispatchSocketMessage md5) FreshAccept (gateInit max listenId) (front ++ r :: mid) g)
    (hlives : Lives c r mid) (hc : Speaks md5.client hello fs) (hs : 0 < s)
    (hup : Uplink s c front r mid) (hfs : ∀ f ∈ fs, f.payload ≠ [])
    (hstream : (chunksOf c mid).flatten = stream (hello :: fs))
    (hone : Framing.OneEndPerChunk (hello :: fs) (chunksOf c mid))
    (hfd : fd ≠ -1) (hsocket : Exec clientStep ok (socketConnect socketNew fd) tr sock)
    (hopen : ∀ q ∈ tr, ¬ Closes q.output)
    (hwire : received (tr.filterMap clientDelivery) =
      (streamTo s (outputsOf (front ++ r :: mid))).flatten)
    (hcut : ∀ sent : List (Frame beNat),
      streamTo s (outputsOf (front ++ r :: mid)) = sent.map Frame.bytes →
      Framing.OneEndPerChunk sent ((tr.filterMap clientDelivery).map Delivery.chunk)) :
    (calledBack (outputsOf tr)).filter (taggedWith c) = fs.map fun f => stamped c f.payload := by
  obtain ⟨a, hok, ha, hfresh, hmid⟩ := hlives.slot h
  have hprefix : (chunksOf c mid).flatten <+: stream (hello :: fs) :=
    hstream ▸ List.prefix_refl _
  obtain ⟨-, -, -, done, rest, head, hstate⟩ :=
    relay_run hok ha hfresh hc hs hmid hlives.stays hup.served hprefix
  obtain ⟨sent, hsent, hlong⟩ := streamTo_frames (s := s) h hup.forwards
  rw [hsent] at hwire
  have hread : received (tr.filterMap clientDelivery) = stream sent := by
    rw [stream, List.flatMap_def]
    exact hwire
  obtain ⟨-, hall⟩ :=
    client_prefix hfd hsocket hopen (fun f hf => Nat.le_trans (by decide) (hlong f hf))
      (hread ▸ List.prefix_refl _)
  rw [hall hread (hcut sent hsent), ← hsent, hup.stream_eq h hlives hstate.targets,
    hstate.sent_arrived hc hprefix hfs hone, hstream, Framing.arrived_stream, List.tail_cons,
    List.map_map]
  rfl

end

/-- However the streams of all clients are interleaved and cut, sorted by the id in the frames the
server's callback gets an initial segment of what client `c` has said, in order and with its id;
and all of it when everything has arrived and no chunk ends two frames. -/
theorem client_heard (md5 : HandshakeMd5) (max : Capacity) (listenId : Int) (s c fd : Int)
    {hello : Frame beNat} {fs : List (Frame beNat)} {g : Gate}
    {front mid : List (Record Gate GateInput Act)} {r : Record Gate GateInput Act}
    (h : Exec (dispatchSocketMessage md5) FreshAccept (gateInit max listenId) (front ++ r :: mid) g)
    (hlives : Lives c r mid) (hc : Speaks md5.client hello fs) (hs : 0 < s)
    (hup : Uplink s c front r mid) (hstream : (chunksOf c mid).flatten <+: stream (hello :: fs))
    {ok : Socket → ClientInput → Prop} {tr : List (Record Socket ClientInput ClientAct)}
    {sock : Socket} (hfd : fd ≠ -1)
    (hsocket : Exec clientStep ok (socketConnect socketNew fd) tr sock)
    (hopen : ∀ q ∈ tr, ¬ Closes q.output)
    (hwire : received (tr.filterMap clientDelivery) <+:
      (streamTo s (outputsOf (front ++ r :: mid))).flatten) :
    ((calledBack (outputsOf tr)).filter (taggedWith c) <+: (delivered 6 fs).map (stamped c)) ∧
      ((∀ f ∈ fs, f.payload ≠ []) → (chunksOf c mid).flatten = stream (hello :: fs) →
        Framing.OneEndPerChunk (hello :: fs) (chunksOf c mid) →
        received (tr.filterMap clientDelivery) =
          (streamTo s (outputsOf (front ++ r :: mid))).flatten →
        (∀ sent : List (Frame beNat),
          streamTo s (outputsOf (front ++ r :: mid)) = sent.map Frame.bytes →
          Framing.OneEndPerChunk sent ((tr.filterMap clientDelivery).map Delivery.chunk)) →
        (calledBack (outputsOf tr)).filter (taggedWith c) =
          fs.map fun f => stamped c f.payload) := by
  constructor
  · exact heard_prefix h hlives hc hs hup hstream hfd hsocket hopen hwire
  · intro hfs hbytes hone hread hcut
    exact heard_all h hlives hc hs hup hfs hbytes hone hfd hsocket hopen hread hcut

theorem pieces_run :
    ∃ r mid g tr sock, Exec (dispatchSocketMessage gatewayMd5) FreshAccept (gateInit ⟨4, by decide⟩ 7)
        ([] ++ r :: mid) g ∧
      Lives 5 r mid ∧ Uplink 4 5 [] r mid ∧
      (chunksOf 5 mid).flatten <+: stream [clientHandshake, clientFrame] ∧
      Exec clientStep (fun _ _ => True) (socketConnect socketNew 3) tr sock ∧
      (∀ q ∈ tr, ¬ Closes q.output) ∧
      received (tr.filterMap clientDelivery) <+: (streamTo 4 (outputsOf ([] ++ r :: mid))).flatten ∧
      (calledBack (outputsOf tr)).filter (taggedWith 5) = [package 5 1 [0, 0, 0, 7]] := by
  let inputs : List GateInput :=
    [⟨.accept 7 5, 0⟩, ⟨.accept 7 4, 0⟩, ⟨.data 4 (handshakePackage 3 gatewayMd5.server), 0⟩,
      ⟨.data 5 clientHandshake.bytes, 0⟩, ⟨.data 5 (clientFrame.bytes.take 5), 0⟩,
      ⟨.data 5 (clientFrame.bytes.drop 5), 0⟩]
  have hrun : (execute (dispatchSocketMessage gatewayMd5) FreshAccept (gateInit ⟨4, by decide⟩ 7) inputs).map
      (fun run => decide (run.1.map Record.input = inputs) &&
        decide ((outputsOf run.1).filter Act.visible =
          [.start 5, .start 4, .send .toServer 4 (package 5 1 [0, 0, 0, 7]) 0]) &&
        decide (streamTo 4 (outputsOf run.1) = [package 5 1 [0, 0, 0, 7]]) &&
        run.1.head?.any (fun r => decide (.start 5 ∈ r.output)) &&
        decide (∀ q ∈ run.1.tail, ServedBy 4 5 q) &&
        decide (chunksOf 5 run.1.tail =
          [clientHandshake.bytes, clientFrame.bytes.take 5, clientFrame.bytes.drop 5])) =
      some true := by decide +kernel
  have hread : (execute clientStep (fun _ _ => True) (socketConnect socketNew 3)
      [.msgdispatch (.bytes ((package 5 1 [0, 0, 0, 7]).take 3)) [],
        .msgdispatch (.bytes ((package 5 1 [0, 0, 0, 7]).drop 3)) []]).map (fun run =>
      (outputsOf run.1, received (run.1.filterMap clientDelivery))) =
      some ([.read 3 (.bytes ((package 5 1 [0, 0, 0, 7]).take 3)),
        .read 3 (.bytes ((package 5 1 [0, 0, 0, 7]).drop 3)), .callback (some (package 5 1 [0, 0, 0, 7]))],
        package 5 1 [0, 0, 0, 7]) := by decide +kernel
  obtain ⟨all, g, h, hdata⟩ := exists_exec _ hrun
  obtain ⟨tr, sock, hsocket, hsockdata⟩ := exists_exec _ hread
  rcases all with - | ⟨r, mid⟩
  · exact absurd hdata (by simp)
  simp only [List.head?_cons, Option.any_some, List.tail_cons, Bool.and_eq_true] at hdata
  obtain ⟨⟨⟨⟨⟨hinputs, hacts⟩, hsent⟩, hstart⟩, hserved⟩, hchunks⟩ := hdata
  have hinputs := of_decide_eq_true hinputs
  have hacts := of_decide_eq_true hacts
  have hserved := of_decide_eq_true hserved
  obtain ⟨houtputs, hreceived⟩ := Prod.mk.inj hsockdata
  simp only [inputs, List.map_cons, List.cons.injEq] at hinputs
  obtain ⟨haccept, htail⟩ := hinputs
  have hinput : ∀ q ∈ r :: mid, q.input ∈ inputs := by
    intro q hq
    rcases List.mem_cons.mp hq with rfl | hq
    · rw [haccept]
      exact List.mem_cons_self
    · have hmem := List.mem_map_of_mem (f := Record.input) hq
      rw [htail] at hmem
      exact List.mem_cons_of_mem _ hmem
  have hsends : ∀ q ∈ r :: mid, ∀ site buf w, .send site 4 buf w ∈ q.output → site = .toServer := by
    intro q hq site buf w hmem
    have hvisible : .send site 4 buf w ∈ (outputsOf (r :: mid)).filter Act.visible :=
      List.mem_filter.mpr ⟨List.mem_flatMap.mpr ⟨q, hq, hmem⟩, rfl⟩
    rw [hacts] at hvisible
    simp only [List.mem_cons, Act.send.injEq, reduceCtorEq, List.not_mem_nil, or_false,
      false_or] at hvisible
    exact hvisible.1
  have hstays : ∀ q ∈ mid, q.input.msg ≠ .close 5 ∧ q.input.msg ≠ .error 5 := by
    intro q hq
    have hmem := hinput q (List.mem_cons_of_mem r hq)
    simp only [inputs, List.mem_cons, List.not_mem_nil, or_false] at hmem
    rcases hmem with hq | hq | hq | hq | hq | hq <;> simp [hq]
  have hlives : Lives 5 r mid := ⟨⟨7, by rw [haccept]⟩, of_decide_eq_true hstart, hstays⟩
  have hup : Uplink 4 5 [] r mid := by
    refine ⟨hsends, ?_, by simp, hserved, ?_⟩
    · intro q hq d data hmsg hhi hlo
      have hmem := hinput q hq
      simp only [inputs, List.mem_cons, List.not_mem_nil, or_false] at hmem
      have hd : d = 4 ∨ d = 5 := by
        rcases hmem with hq | hq | hq | hq | hq | hq <;> simp_all
      rcases hd with rfl | rfl
      · exact absurd hlo (by decide)
      · rfl
    · intro q hq data _
      have hmem := hinput q (List.mem_cons_of_mem r hq)
      simp only [inputs, List.mem_cons, List.not_mem_nil, or_false] at hmem
      rcases hmem with hq | hq | hq | hq | hq | hq <;> simp [hq]
  have hstream : (chunksOf 5 mid).flatten <+: stream [clientHandshake, clientFrame] := by
    rw [of_decide_eq_true hchunks]
    decide
  have hopen : ∀ q ∈ tr, ¬ Closes q.output := by
    intro q hq hclose
    obtain ⟨fd, hfd⟩ := hclose
    have hmem : .close fd ∈ outputsOf tr := List.mem_flatMap.mpr ⟨q, hq, hfd⟩
    rw [houtputs] at hmem
    simp at hmem
  have hwire : received (tr.filterMap clientDelivery) <+:
      (streamTo 4 (outputsOf ([] ++ r :: mid))).flatten := by
    have hsent' : streamTo 4 (outputsOf (r :: mid)) = [package 5 1 [0, 0, 0, 7]] := of_decide_eq_true hsent
    rw [List.nil_append, hsent', hreceived]
    simp
  refine ⟨r, mid, g, tr, sock, h, hlives, hup, hstream, hsocket, hopen, hwire, ?_⟩
  rw [houtputs]
  decide

theorem client_heard_in_pieces :
    ∃ r mid g tr sock, Exec (dispatchSocketMessage gatewayMd5) FreshAccept (gateInit ⟨4, by decide⟩ 7)
        ([] ++ r :: mid) g ∧
      Exec clientStep (fun _ _ => True) (socketConnect socketNew 3) tr sock ∧
      (calledBack (outputsOf tr)).filter (taggedWith 5) = [package 5 1 [0, 0, 0, 7]] ∧
      (calledBack (outputsOf tr)).filter (taggedWith 5) <+:
        (delivered 6 [clientFrame]).map (stamped 5) := by
  obtain ⟨r, mid, g, tr, sock, h, hlives, hup, hstream, hsocket, hopen, hwire, hheard⟩ := pieces_run
  refine ⟨r, mid, g, tr, sock, h, hsocket, hheard, ?_⟩
  exact (@client_heard gatewayMd5 _ 7 4 5 3 clientHandshake [clientFrame] g [] mid r h hlives
    gateway_speaks (by decide) hup hstream _ tr sock (by decide) hsocket hopen hwire).1

end NetgameFormal
