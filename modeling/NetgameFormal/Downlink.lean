import NetgameFormal.EndToEnd
import NetgameFormal.GateTable
import NetgameFormal.ClientDeframer

/-!
# From the server to its clients

The frames of the server name their client by two bytes. Those that name one
client leave for it in the server's order, with the server's id in the place of
the name, and its script takes them out of the stream one by one.
-/

set_option autoImplicit false

namespace NetgameFormal

open Framing (Frame stream delivered)

/-- A frame with this payload is for connection `c`, as `handlemsg` reads it. -/
def naming (c : Int) (payload : List Byte) : Bool :=
  decide (readBlock (rebuiltFrame payload) 2 = c)

def sentTo (c : Int) (sent : List (Int × List Byte)) : List (Int × List Byte) :=
  sent.filter fun p => p.1 = c

/-- No other connection is the server while the bytes of `s` are handled, and `c` is found. -/
structure Serves (s c : Int) (q : Record Gate GateInput Act) : Prop where
  unrivalled : ∀ data, q.input.msg = .data s data → q.pre.sid ≤ 0 ∨ q.pre.sid = s
  routed : ∀ data, q.input.msg = .data s data → q.pre.routes c = true

/-- What the socket layer and the other connections have to do for `c` to hear the server `s`, in a
run that accepts `s` in record `r`. -/
structure Downlink (s c : Int) (front : List (Record Gate GateInput Act))
    (r : Record Gate GateInput Act) (mid : List (Record Gate GateInput Act)) : Prop where
  alone : ∀ q ∈ front ++ r :: mid, ∀ site buf w, .send site c buf w ∈ q.output →
    ∃ data, q.input.msg = .data s data
  first : ∀ q ∈ front, ∀ data, q.input.msg ≠ .data s data
  serves : ∀ q ∈ mid, Serves s c q
  taken : ∀ q ∈ mid, ∀ data, q.input.msg = .data s data → 0 ≤ q.input.wsz

/-- What the server has to say. Its string is not the one that makes a connection a client. -/
structure ServerSpeaks (md5 : HandshakeMd5) (hello : Frame beNat) (fs : List (Frame beNat)) : Prop
    extends Speaks md5.server hello fs where
  client : 0#8 ∉ md5.client
  apart : md5.server ≠ md5.client

/-- Where the relay of the server's frames stands, as far as they are for connection `c`. -/
structure ServerState (s c : Int) (hello : Frame beNat) (fs done rest : List (Frame beNat))
    (head : List Byte) (chunks : List (List Byte)) (v : RefConn) (sid : Int)
    (sent : List (Int × List Byte)) : Prop
    extends Follows (hello :: fs) done rest head chunks v.receiver where
  role : v.connTp = if done = [] then .zero else .server
  registered : sid = s ↔ done ≠ []
  sent : sentTo c sent = ((delivered 6 done).tail.filter (naming c)).map fun payload =>
    (c, stamped s payload)

variable {md5 : HandshakeMd5} {g g' : Gate} {i : GateInput} {o : List Act} {c s : Int} {a : Nat}
variable {mid : List (Record Gate GateInput Act)} {hello f : Frame beNat}
variable {fs done rest : List (Frame beNat)} {head : List Byte} {chunks : List (List Byte)}
variable {v : RefConn} {sid : Int} {sent : List (Int × List Byte)}

@[simp] theorem sentTo_append (c : Int) (sent sent' : List (Int × List Byte)) :
    sentTo c (sent ++ sent') = sentTo c sent ++ sentTo c sent' := by
  simp [sentTo]

theorem refFrame_registers (hf : Greets md5.server f) (hplain : 0#8 ∉ md5.client)
    (hserver : 0#8 ∉ md5.server) (hapart : md5.server ≠ md5.client) (tp : ConnTp) {sid : Int}
    (hsid : sid ≤ 0) (id : Int) (routes : Bool) (wsz : Int) :
    let out := refFrame md5 tp sid id routes (rebuiltFrame f.payload) wsz
    out.connTp = .server ∧ out.sid = id ∧ out.clears = false ∧ sendsOf out.allActs = [] ∧
      Act.close id ∉ out.allActs := by
  have hclient : ¬ presents md5.client (rebuiltFrame f.payload) = true := by
    rw [hf.presents_iff hplain]
    exact hapart
  have hnone : ¬ sid > 0 := by omega
  have hout : refHandshake md5 tp sid id (rebuiltFrame f.payload) =
      ⟨.server, id, false, false, [.malloc .device]⟩ := by
    rw [refHandshake, if_neg hclient, if_pos ((hf.presents_iff hserver).mpr rfl), if_neg hnone]
  have hclears : (refFrame md5 tp sid id routes (rebuiltFrame f.payload) wsz).clears = false := by
    simp [refFrame, hf.handshake, hout]
  refine ⟨by simp [refFrame, hf.handshake, hout], by simp [refFrame, hf.handshake, hout], hclears,
    ?_, ?_⟩
  · rw [← sendsOf_visible, visible_allActs, refVisible, if_pos hf.handshake, hout]
    rfl
  · rw [close_mem_iff, hclears]
    simp

theorem refFrame_serves (hf : Ordinary f) {sid : Int} (hc : c ≠ sid) (id : Int) {routes : Bool}
    (hroutes : naming c f.payload = true → routes = true) (wsz : Int) :
    let out := refFrame md5 .server sid id routes (rebuiltFrame f.payload) wsz
    out.connTp = .server ∧ out.sid = sid ∧ out.clears = false ∧
      sentTo c (sendsOf out.allActs) =
        (([f.payload]).filter (naming c)).map (fun payload => (c, stamped sid payload)) ∧
      Act.close id ∉ out.allActs := by
  have hshake : ¬ isHandshake (rebuiltFrame f.payload) = true := by
    rw [hf]
    exact Bool.false_ne_true
  have hclears : (refFrame md5 .server sid id routes (rebuiltFrame f.payload) wsz).clears = false := by
    cases routes <;> simp [refFrame, hshake, refHandlemsg]
  refine ⟨by simp [refFrame, hshake], by simp [refFrame, hshake], hclears, ?_, ?_⟩
  · rw [sendsOf_server hf]
    cases hname : naming c f.payload with
    | true =>
      have htarget : readBlock (rebuiltFrame f.payload) 2 = c := of_decide_eq_true hname
      rw [if_pos (hroutes hname), htarget]
      simp [sentTo, hname, stamped]
    | false =>
      have htarget : readBlock (rebuiltFrame f.payload) 2 ≠ c := of_decide_eq_false hname
      cases routes with
      | true => simp [sentTo, hname, htarget]
      | false => simp [sentTo, hname, hc.symm]
  · rw [close_mem_iff, hclears]
    simp

theorem ServerState.frame
    (h : ServerState s c hello fs done (f :: rest) head chunks v sid sent)
    (hsp : ServerSpeaks md5 hello fs) (hsid : sid ≤ 0 ∨ sid = s) (hcs : c ≠ s)
    (hlong : 6 ≤ f.payload.length) {routes : Bool}
    (hroutes : naming c f.payload = true → routes = true) (wsz : Int) :
    let out := refFrame md5 v.connTp sid s routes (rebuiltFrame f.payload) wsz
    out.connTp = .server ∧ out.sid = s ∧ out.clears = false ∧ Act.close s ∉ out.allActs ∧
      sentTo c (sent ++ sendsOf out.allActs) =
        ((delivered 6 (done ++ [f])).tail.filter (naming c)).map fun payload =>
          (c, stamped s payload) := by
  rcases done with - | ⟨first, done⟩
  · obtain ⟨rfl, rfl⟩ := List.cons.inj h.frames
    have hnone : sid ≤ 0 := by
      rcases hsid with hle | heq
      · exact hle
      · exact absurd rfl (h.registered.mp heq)
    obtain ⟨htp, hsid', hclears, hsends, hopen⟩ :=
      refFrame_registers hsp.greets hsp.client hsp.plain hsp.apart v.connTp hnone s routes wsz
    have hone : delivered 6 [hello] = [hello.payload] := by simp [delivered, hlong]
    refine ⟨htp, hsid', hclears, hopen, ?_⟩
    rw [hsends, List.append_nil, h.sent, List.nil_append, hone]
    rfl
  · have htail := delivered_tail_snoc hsp.hello_long h.frames (List.cons_ne_nil first done) hlong
    obtain rfl : sid = s := h.registered.mpr (List.cons_ne_nil first done)
    obtain ⟨rfl, hfs⟩ := List.cons.inj h.frames
    have hf : Ordinary f := hsp.ordinary f (by simp [hfs])
    have htp : v.connTp = .server := h.role
    obtain ⟨htp', hsid', hclears, hsends, hopen⟩ :=
      @refFrame_serves md5 c f hf sid hcs sid routes hroutes wsz
    rw [htp]
    refine ⟨htp', hsid', hclears, hopen, ?_⟩
    rw [sentTo_append, hsends, h.sent, htail, List.filter_append, List.map_append]

/-- The step lemma: one more chunk of the server's stream. -/
theorem ServerState.chunk (h : ServerState s c hello fs done rest head chunks v sid sent)
    (hsp : ServerSpeaks md5 hello fs) (hsid : sid ≤ 0 ∨ sid = s) (hcs : c ≠ s) {data : List Byte}
    (hstream : chunks.flatten ++ data <+: stream (hello :: fs)) {routes : Int → Bool}
    (hroutes : routes c = true) (wsz : Int) :
    let e := v.message md5 routes sid s data wsz
    Act.close s ∉ e.acts ∧ ∃ done' rest' head', ServerState s c hello fs done' rest' head'
      (chunks ++ [data]) e.conn e.sid (sent ++ sendsOf e.acts) := by
  obtain ⟨done', rest', head', receiver, hfollows, hnext⟩ :=
    h.toFollows.chunk hsp.acceptable hsp.hello_long hstream
  rcases hnext with ⟨htake, hsame, hnil⟩ | ⟨f, htake, rfl, rfl, hlong⟩
  · rw [RefConn.message_none htake]
    refine ⟨by simp, done', rest', head', hfollows, ?_, ?_, ?_⟩
    · simp only [hnil]
      exact h.role
    · rw [ne_eq, hnil]
      exact h.registered
    · rw [hsame, ← h.sent]
      exact congrArg (sentTo c) (List.append_nil sent)
  · have hnamed : naming c f.payload = true → routes (readBlock (rebuiltFrame f.payload) 2) = true := by
      intro hname
      have htarget : readBlock (rebuiltFrame f.payload) 2 = c := of_decide_eq_true hname
      rw [htarget]
      exact hroutes
    obtain ⟨htp, hsid', hclears, hopen, hsent⟩ := h.frame hsp hsid hcs hlong hnamed wsz
    rw [RefConn.message_some htake]
    simp only [hclears, Bool.false_eq_true, if_false]
    refine ⟨hopen, done ++ [f], rest', head', hfollows, ?_, ?_, hsent⟩
    · rw [if_neg (by simp)]
      exact htp
    · simp [hsid']

theorem ServerState.sent_prefix (h : ServerState s c hello fs done rest head chunks v sid sent)
    (hsp : ServerSpeaks md5 hello fs) :
    sentTo c sent <+:
      ((delivered 6 fs).filter (naming c)).map fun payload => (c, stamped s payload) := by
  rw [h.sent]
  exact ((prefix_delivered_tail hsp.toSpeaks h.frames).filter _).map _

theorem ServerState.sent_arrived (h : ServerState s c hello fs done rest head chunks v sid sent)
    (hsp : ServerSpeaks md5 hello fs) (hstream : chunks.flatten <+: stream (hello :: fs))
    (hfs : ∀ f ∈ fs, f.payload ≠ []) (hone : Framing.OneEndPerChunk (hello :: fs) chunks) :
    sentTo c sent = (((Framing.arrived (hello :: fs) chunks.flatten.length).tail.map
      Frame.payload).filter (naming c)).map fun payload => (c, stamped s payload) := by
  rw [h.sent, h.toFollows.arrived hsp.acceptable hsp.hello_long hstream hfs hone]

section
variable {front : List (Record Gate GateInput Act)} {r q : Record Gate GateInput Act}

theorem Downlink.stream_other (hdown : Downlink s c front r mid) (hq : q ∈ front ++ r :: mid)
    (hother : ∀ data, q.input.msg ≠ .data s data) : streamTo c q.output = [] := by
  apply List.eq_nil_iff_forall_not_mem.mpr
  intro buf hbuf
  obtain ⟨site, w, hmem, -⟩ := mem_streamTo.mp hbuf
  obtain ⟨data, hdata⟩ := hdown.alone q hq site buf w hmem
  exact hother data hdata

theorem Downlink.stream_record (hdown : Downlink s c front r mid) (hq : q ∈ mid)
    (hrecord : GateOk q.pre ∧ GateStep md5 q.pre q.input q.post q.output) :
    streamTo c q.output = (sentTo c (relayedBy s q)).map Prod.snd := by
  by_cases hdata : ∃ data, q.input.msg = .data s data
  · obtain ⟨data, hi⟩ := hdata
    obtain ⟨hok, hstep⟩ := hrecord
    have hsends : relayedBy s q = sendsOf q.output := by
      rw [relayedBy, hi]
      exact if_pos rfl
    rw [hsends, sentTo]
    exact streamTo_eq (hstep.send_wsz hok) (hdown.taken q hq data hi)
  · have hother : ∀ data, q.input.msg ≠ .data s data := fun data heq => hdata ⟨data, heq⟩
    rw [hdown.stream_other (by simp [hq]) hother, relayedBy_of_ne hother]
    rfl

theorem Downlink.stream_eq {max : Capacity} {listenId : Int}
    (h : Exec (dispatchSocketMessage md5) FreshAccept (gateInit max listenId) (front ++ r :: mid) g)
    (hlives : Lives s r mid) (hdown : Downlink s c front r mid) :
    streamTo c (outputsOf (front ++ r :: mid)) = (sentTo c (relayed s mid)).map Prod.snd := by
  have hrecord := gate_record h
  have hfront : front.flatMap (fun q => streamTo c q.output) = [] := by
    apply List.flatMap_eq_nil_iff.mpr
    intro q hq
    exact hdown.stream_other (List.mem_append_left _ hq) (hdown.first q hq)
  have haccept : streamTo c r.output = [] := by
    apply hdown.stream_other (by simp)
    intro data hmsg
    obtain ⟨l, hl⟩ := hlives.accepted
    rw [hl] at hmsg
    cases hmsg
  have hmid : mid.flatMap (fun q => streamTo c q.output) =
      mid.flatMap fun q => (sentTo c (relayedBy s q)).map Prod.snd := by
    apply List.flatMap_congr
    intro q hq
    exact hdown.stream_record hq (hrecord q (by simp [hq]))
  rw [streamTo_outputsOf, List.flatMap_append, List.flatMap_cons, hfront, haccept, hmid, sentTo,
    relayed, List.filter_flatMap, List.map_flatMap]
  rfl

end

end NetgameFormal
