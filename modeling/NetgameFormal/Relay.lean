import NetgameFormal.GateLoop
import NetgameFormal.GateHistory
import NetgameFormal.GateTable
import NetgameFormal.ServerFrames
import NetgameFormal.Reassembly

/-!
# What the gateway relays from a client to the server

A client greets the gateway with a handshake frame and sends ordinary frames
behind it. However its stream is cut into chunks, and whatever happens on other
connections in between, the frames that leave for the server are an initial
segment of the frames it has sent, in their order, each with its id written in.
-/

set_option autoImplicit false

namespace NetgameFormal

open Framing (Frame stream delivered Acceptable Aligned)

def Greets (str : List Byte) (f : Frame beNat) : Prop :=
  ∃ x y, f.payload = x :: y :: 0#8 :: 100#8 :: str

def Ordinary (f : Frame beNat) : Prop := isHandshake (rebuiltFrame f.payload) = false

/-- What a peer has to say: its greeting, and ordinary frames none of which is too short. -/
structure Speaks (str : List Byte) (hello : Frame beNat) (fs : List (Frame beNat)) : Prop where
  plain : 0#8 ∉ str
  greets : Greets str hello
  ordinary : ∀ f ∈ fs, Ordinary f
  acceptable : Acceptable 6 (hello :: fs)

/-- A frame's payload as `handlemsg` sends it to the server, with the id of its connection. -/
def stamped (c : Int) (payload : List Byte) : List Byte := writeBlock (rebuiltFrame payload) c 2

/-- What the gateway sends while it handles bytes of connection `c`, to whom. -/
def relayedBy (c : Int) (r : Record Gate GateInput Act) : List (Int × List Byte) :=
  match r.input.msg with
  | .data id _ => if id = c then sendsOf r.output else []
  | _ => []

def relayed (c : Int) (tr : List (Record Gate GateInput Act)) : List (Int × List Byte) :=
  tr.flatMap (relayedBy c)

/-- The bytes of connection `c` are handled while `s` is the server. -/
def ServedBy (s c : Int) (r : Record Gate GateInput Act) : Prop :=
  ∀ data, r.input.msg = .data c data → r.pre.sid = s

def chunksOf (c : Int) (tr : List (Record Gate GateInput Act)) : List (List Byte) :=
  (tr.filterMap (ownChunk c)).map Prod.fst

/-- A receiver that was fed `chunks` of the stream stands behind the frames `done`. -/
structure Follows (fs done rest : List (Frame beNat)) (head : List Byte)
    (chunks : List (List Byte)) (receiver : Framing.Receiver Byte) : Prop where
  frames : fs = done ++ rest
  aligned : Aligned done rest head receiver chunks.flatten
  fed : Framing.feedAll beNat 6 .idle chunks = (receiver, delivered 6 done)

/-- Where the relay for connection `c` stands: the frames done and what has left for them. -/
structure RelayState (s c : Int) (hello : Frame beNat) (fs done rest : List (Frame beNat))
    (head : List Byte) (chunks : List (List Byte)) (v : RefConn) (sent : List (Int × List Byte)) :
    Prop extends Follows (hello :: fs) done rest head chunks v.receiver where
  role : v.connTp = if done = [] then .zero else .client
  sent : sent = (delivered 6 done).tail.map fun payload => (s, stamped c payload)

variable {md5 : HandshakeMd5} {g g' : Gate} {i : GateInput} {o : List Act} {c s : Int} {a : Nat}
variable {mid : List (Record Gate GateInput Act)} {hello f : Frame beNat}
variable {fs done rest : List (Frame beNat)} {head : List Byte} {chunks : List (List Byte)}
variable {receiver : Framing.Receiver Byte} {v : RefConn} {sent : List (Int × List Byte)}

@[simp] theorem relayed_snoc (c : Int) (tr : List (Record Gate GateInput Act))
    (r : Record Gate GateInput Act) : relayed c (tr ++ [r]) = relayed c tr ++ relayedBy c r := by
  simp [relayed]

theorem relayedBy_of_ne {r : Record Gate GateInput Act} (h : ∀ data, r.input.msg ≠ .data c data) :
    relayedBy c r = [] := by
  unfold relayedBy
  split
  · next id data hmsg =>
    have hne : id ≠ c := by
      intro heq
      exact h data (by rw [hmsg, heq])
    exact if_neg hne
  · rfl

theorem chunksOf_snoc (c : Int) (tr : List (Record Gate GateInput Act))
    (r : Record Gate GateInput Act) :
    chunksOf c (tr ++ [r]) = chunksOf c tr ++ ((ownChunk c r).map Prod.fst).toList := by
  rw [chunksOf, filterMap_snoc, List.map_append]
  cases ownChunk c r <;> rfl

theorem chunkOf_self {data : List Byte} {wsz : Int} :
    (ownChunk c ⟨g, ⟨.data c data, wsz⟩, o, g'⟩).map Prod.fst = some data := by
  simp [ownChunk]

theorem chunkOf_of_ne {r : Record Gate GateInput Act} (h : ∀ data, r.input.msg ≠ .data c data) :
    (ownChunk c r).map Prod.fst = none := by
  unfold ownChunk
  split
  · next id data hmsg =>
    have hne : id ≠ c := by
      intro heq
      exact h data (by rw [hmsg, heq])
    rw [if_neg hne, Option.map_none]
  · rfl

theorem Greets.handshake {str : List Byte} (h : Greets str f) : isHandshake (rebuiltFrame f.payload) = true := by
  obtain ⟨x, y, hf⟩ := h
  rw [hf, isHandshake_iff]
  exact ⟨rfl, rfl⟩

theorem Greets.presents_iff {str str' : List Byte} (h : Greets str f) (hstr : 0#8 ∉ str') :
    presents str' (rebuiltFrame f.payload) = true ↔ str = str' := by
  obtain ⟨x, y, hf⟩ := h
  rw [hf, NetgameFormal.presents_iff hstr]
  rfl

theorem refFrame_greets (hf : Greets md5.client f) (hmd5 : 0#8 ∉ md5.client) (tp : ConnTp) (sid id : Int)
    (routes : Bool) (wsz : Int) :
    let out := refFrame md5 tp sid id routes (rebuiltFrame f.payload) wsz
    out.connTp = .client ∧ out.clears = false ∧ sendsOf out.allActs = [] ∧
      Act.close id ∉ out.allActs := by
  have hout : refHandshake md5 tp sid id (rebuiltFrame f.payload) =
      ⟨.client, sid, false, false, [.malloc .device]⟩ := by
    rw [refHandshake, if_pos ((hf.presents_iff hmd5).mpr rfl)]
  have hclears : (refFrame md5 tp sid id routes (rebuiltFrame f.payload) wsz).clears = false := by
    simp [refFrame, hf.handshake, hout]
  refine ⟨by simp [refFrame, hf.handshake, hout], hclears, ?_, ?_⟩
  · rw [← sendsOf_visible, visible_allActs, refVisible, if_pos hf.handshake, hout]
    rfl
  · rw [close_mem_iff, hclears]
    simp

theorem refFrame_relays (hf : Ordinary f) {sid : Int} (hsid : 0 < sid) (id : Int) (routes : Bool)
    (wsz : Int) :
    let out := refFrame md5 .client sid id routes (rebuiltFrame f.payload) wsz
    out.connTp = .client ∧ out.clears = false ∧
      sendsOf out.allActs = [(sid, stamped id f.payload)] ∧ Act.close id ∉ out.allActs := by
  have hshake : ¬ isHandshake (rebuiltFrame f.payload) = true := by
    rw [hf]
    exact Bool.false_ne_true
  have hclears : (refFrame md5 .client sid id routes (rebuiltFrame f.payload) wsz).clears = false := by
    simp [refFrame, hshake, refHandlemsg, hsid]
  refine ⟨by simp [refFrame, hshake], hclears, ?_, ?_⟩
  · have hsend : refSend .client sid id routes (rebuiltFrame f.payload) =
        some (.toServer, sid, stamped id f.payload) :=
      refSend_toServer_iff.mpr ⟨hf, rfl, hsid, rfl, rfl⟩
    rw [← sendsOf_visible, visible_allActs, refVisible, if_neg hshake, hsend]
    rfl
  · rw [close_mem_iff, hclears]
    simp

theorem Speaks.hello_long {str : List Byte} (hc : Speaks str hello fs) : 6 ≤ hello.payload.length := by
  obtain ⟨x, y, hpayload⟩ := hc.greets
  rcases hc.acceptable hello (by simp) with hzero | hlong
  · simp [hpayload] at hzero
  · exact hlong

theorem delivered_tail_snoc (hfirst : 6 ≤ hello.payload.length) (hframes : hello :: fs = done ++ rest)
    (hsome : done ≠ []) (hlong : 6 ≤ f.payload.length) :
    (delivered 6 (done ++ [f])).tail = (delivered 6 done).tail ++ [f.payload] := by
  obtain ⟨first, done, rfl⟩ := List.exists_cons_of_ne_nil hsome
  obtain ⟨rfl, -⟩ := List.cons.inj hframes
  have hone : delivered 6 [f] = [f.payload] := by simp [delivered, hlong]
  have hcons : delivered 6 (hello :: done) = hello.payload :: delivered 6 done := by
    rw [← List.singleton_append, Framing.delivered_append]
    simp [delivered, hfirst]
  rw [Framing.delivered_append, hone, hcons]
  rfl

theorem RelayState.frame (h : RelayState s c hello fs done (f :: rest) head chunks v sent)
    (hc : Speaks md5.client hello fs) (hs : 0 < s) (hlong : 6 ≤ f.payload.length) (routes : Bool)
    (wsz : Int) :
    let out := refFrame md5 v.connTp s c routes (rebuiltFrame f.payload) wsz
    out.connTp = .client ∧ out.clears = false ∧ Act.close c ∉ out.allActs ∧
      sent ++ sendsOf out.allActs =
        (delivered 6 (done ++ [f])).tail.map fun payload => (s, stamped c payload) := by
  rcases done with - | ⟨first, done⟩
  · obtain ⟨rfl, rfl⟩ := List.cons.inj h.frames
    obtain ⟨htp, hclears, hsends, hopen⟩ :=
      refFrame_greets hc.greets hc.plain v.connTp s c routes wsz
    have hone : delivered 6 [hello] = [hello.payload] := by simp [delivered, hlong]
    refine ⟨htp, hclears, hopen, ?_⟩
    rw [hsends, h.sent, List.nil_append, hone]
    rfl
  · have htail := delivered_tail_snoc hc.hello_long h.frames (List.cons_ne_nil first done) hlong
    obtain ⟨rfl, hfs⟩ := List.cons.inj h.frames
    have hf : Ordinary f := hc.ordinary f (by simp [hfs])
    have htp : v.connTp = .client := h.role
    obtain ⟨htp', hclears, hsends, hopen⟩ := @refFrame_relays md5 f hf s hs c routes wsz
    rw [htp]
    refine ⟨htp', hclears, hopen, ?_⟩
    rw [hsends, h.sent, htail, List.map_append]
    rfl

theorem Follows.start (fs : List (Frame beNat)) :
    Follows fs [] fs [] [] RefConn.fresh.receiver :=
  ⟨rfl, .idle _, rfl⟩

theorem Follows.chunk (h : Follows (hello :: fs) done rest head chunks v.receiver)
    (hgood : Acceptable 6 (hello :: fs)) (hfirst : 6 ≤ hello.payload.length) {data : List Byte}
    (hstream : chunks.flatten ++ data <+: stream (hello :: fs)) :
    ∃ done' rest' head' receiver,
      Follows (hello :: fs) done' rest' head' (chunks ++ [data]) receiver ∧
      (v.take data = (receiver, none) ∧ delivered 6 done' = delivered 6 done ∧
          (done' = [] ↔ done = []) ∨
        ∃ f, v.take data = (receiver, some (rebuiltFrame f.payload)) ∧ done' = done ++ [f] ∧
          rest = f :: rest' ∧ 6 ≤ f.payload.length) := by
  generalize hfeed : Framing.feed beNat 6 v.receiver data = fed
  obtain ⟨receiver, out⟩ := fed
  have hprogress : Framing.Progress 6 done rest (chunks.flatten ++ data) (receiver, out) := by
    rw [← hfeed]
    apply Framing.feed_progress (by decide) h.aligned
    rw [← h.frames]
    exact hstream
  have hflatten : (chunks ++ [data]).flatten = chunks.flatten ++ data := by simp
  have hfed : Framing.feedAll beNat 6 .idle (chunks ++ [data]) =
      (receiver, delivered 6 done ++ out.toList) := by
    rw [Framing.feedAll_snoc, h.fed, hfeed]
  have htake : v.take data = (receiver, out.map rebuiltFrame) := by rw [RefConn.take, hfeed]
  cases hprogress with
  | @waits head' hnext hout _ =>
    obtain rfl : out = none := hout
    rw [← hflatten] at hnext
    rw [Option.toList_none, List.append_nil] at hfed
    exact ⟨done, rest, head', receiver, ⟨h.frames, hnext, hfed⟩, .inl ⟨htake, rfl, Iff.rfl⟩⟩
  | @consumes f fs' hrest hlen hnext hout _ =>
    subst hrest
    have hframes : hello :: fs = (done ++ [f]) ++ fs' := by rw [h.frames, List.append_cons]
    simp only at hout
    rw [hout, ← Framing.delivered_append] at hfed
    rw [← hflatten] at hnext
    refine ⟨done ++ [f], fs', [], receiver, ⟨hframes, hnext, hfed⟩, ?_⟩
    rcases hlen with hzero | hlong
    · have hskip : delivered 6 [f] = [] := by simp [delivered, hzero]
      obtain rfl : out = none := by simpa [hskip] using hout
      have hsome : done ≠ [] := by
        intro hnil
        subst hnil
        obtain ⟨rfl, -⟩ := List.cons.inj h.frames
        omega
      refine .inl ⟨htake, ?_, by simp [hsome]⟩
      rw [Framing.delivered_append, hskip, List.append_nil]
    · obtain rfl : out = some f.payload := by simpa [delivered, hlong] using hout
      exact .inr ⟨f, htake, rfl, rfl, hlong⟩
  | @strands f fs' _ hrest hlen _ _ _ =>
    have hf := hgood f (by simp [h.frames, hrest])
    omega

/-- The step lemma: one more chunk of the client's stream. -/
theorem RelayState.chunk (h : RelayState s c hello fs done rest head chunks v sent)
    (hc : Speaks md5.client hello fs) (hs : 0 < s) {data : List Byte}
    (hstream : chunks.flatten ++ data <+: stream (hello :: fs)) (routes : Int → Bool) (wsz : Int) :
    Act.close c ∉ (v.message md5 routes s c data wsz).acts ∧
    ∃ done' rest' head', RelayState s c hello fs done' rest' head' (chunks ++ [data])
      (v.message md5 routes s c data wsz).conn
      (sent ++ sendsOf (v.message md5 routes s c data wsz).acts) := by
  obtain ⟨done', rest', head', receiver, hfollows, hnext⟩ :=
    h.toFollows.chunk hc.acceptable hc.hello_long hstream
  rcases hnext with ⟨htake, hsame, hnil⟩ | ⟨f, htake, rfl, rfl, hlong⟩
  · rw [RefConn.message_none htake]
    refine ⟨by simp, done', rest', head', hfollows, ?_, ?_⟩
    · simp only [hnil]
      exact h.role
    · rw [h.sent, hsame]
      exact List.append_nil _
  · obtain ⟨htp, hclears, hopen, hsent⟩ :=
      h.frame hc hs hlong (routes (readBlock (rebuiltFrame f.payload) 2)) wsz
    rw [RefConn.message_some htake]
    simp only [hclears, Bool.false_eq_true, if_false]
    refine ⟨hopen, done ++ [f], rest', head', hfollows, ?_, hsent⟩
    rw [if_neg (by simp)]
    exact htp

theorem GateStep.leaves_open (h : GateStep md5 g i g' o) (hfresh : FreshAccept g i)
    (ha : g.hash.Holds c a) (hdata : ∀ data, i.msg ≠ .data c data) : .close c ∉ o := by
  cases h with
  | @message id data wsz b _ hb _ _ =>
    intro hmem
    obtain ⟨frame, -, hframe⟩ := RefConn.message_mem_iff.mp hmem
    obtain ⟨-, rfl⟩ := close_mem_iff.mp hframe
    exact hdata data rfl
  | @unknown id data _ habsent =>
    intro hmem
    obtain rfl := Act.close.inj (List.mem_singleton.mp hmem)
    exact habsent a ha
  | connect _ => simp
  | stranger _ habsent =>
    intro hmem
    obtain rfl := Act.close.inj (List.mem_singleton.mp hmem)
    exact habsent a ha
  | remove _ _ _ _ => simp
  | gone _ _ => simp
  | refuse _ =>
    intro hmem
    obtain rfl := Act.close.inj (List.mem_singleton.mp hmem)
    exact hfresh.2 a ha.1 ha.2.1
  | accept _ _ _ _ _ _ => simp

theorem GateStep.sid_elsewhere (h : GateStep md5 g i g' o) (hc : 0 < c)
    (hdata : ∀ data, i.msg ≠ .data c data) (hclose : i.msg ≠ .close c) (herror : i.msg ≠ .error c) :
    g'.sid = c ↔ g.sid = c := by
  constructor
  · intro heq
    cases h with
    | @message id data wsz a _ _ _ hsid =>
      rw [hsid] at heq
      rcases RefConn.message_sid md5 g.routes g.sid id (g.view a) data wsz with hsame | ⟨-, hnew⟩
      · rw [← hsame]
        exact heq
      · rw [hnew] at heq
        exact absurd (congrArg (GateMessage.data · data) heq) (hdata data)
    | unknown _ => exact heq
    | connect _ => exact heq
    | stranger _ _ => exact heq
    | remove _ _ _ hsid =>
      rw [hsid] at heq
      split at heq
      · omega
      · exact heq
    | gone _ _ => exact heq
    | refuse _ => exact heq
    | accept _ _ _ _ _ hsid => rw [← hsid]; exact heq
  · rintro rfl
    rcases h.sid_kept hc with hkept | hmsg | hmsg
    · exact hkept
    · exact absurd hmsg hclose
    · exact absurd hmsg herror

/-- The run lemma: what the chunks of connection `c` keep holds however the events of other
connections fall in between. -/
theorem chunks_run {P : List (List Byte) → RefConn → Int → List (Int × List Byte) → Prop}
    {Q : Record Gate GateInput Act → Prop} {whole : List Byte} {g₀ : Gate} (hok : GateOk g₀)
    (ha : g₀.hash.Holds c a) (hstart : P [] (g₀.view a) g₀.sid [])
    (hchunk : ∀ {q chunks v sent data}, P chunks v q.pre.sid sent → Q q →
      q.input.msg = .data c data → chunks.flatten ++ data <+: whole →
      let e := v.message md5 q.pre.routes q.pre.sid c data q.input.wsz
      Act.close c ∉ e.acts ∧ P (chunks ++ [data]) e.conn e.sid (sent ++ sendsOf e.acts))
    (hother : ∀ {chunks v sid sid' sent}, P chunks v sid sent → (sid' = c ↔ sid = c) →
      P chunks v sid' sent)
    (h : Exec (dispatchSocketMessage md5) FreshAccept g₀ mid g)
    (hstays : ∀ q ∈ mid, q.input.msg ≠ .close c ∧ q.input.msg ≠ .error c) (hQ : ∀ q ∈ mid, Q q)
    (hbytes : (chunksOf c mid).flatten <+: whole) :
    GateOk g ∧ g.hash.Holds c a ∧ (∀ q ∈ mid, .close c ∉ q.output) ∧
      P (chunksOf c mid) (g.view a) g.sid (relayed c mid) := by
  induction h with
  | nil => exact ⟨hok, ha, by simp, hstart⟩
  | @snoc mid g g' i o _ haccept hrun ih =>
    rw [chunksOf_snoc, List.flatten_append] at hbytes
    have hbefore := (List.prefix_append _ _).trans hbytes
    obtain ⟨hok', ha', hopen, hstate⟩ :=
      ih (fun q hq => hstays q (List.mem_append_left _ hq))
        (fun q hq => hQ q (List.mem_append_left _ hq)) hbefore
    have hstep := dispatch_step hok' haccept hrun
    obtain ⟨hclose, herror⟩ := hstays ⟨g, i, o, g'⟩ (by simp)
    have hopens : .close c ∉ o → ∀ q ∈ mid ++ [⟨g, i, o, g'⟩], .close c ∉ q.output := by
      intro ho q hq
      rcases List.mem_append.mp hq with hq | hq
      · exact hopen q hq
      · rw [List.mem_singleton.mp hq]
        exact ho
    rw [chunksOf_snoc, relayed_snoc]
    by_cases hdata : ∃ data, i.msg = .data c data
    · obtain ⟨msg, wsz⟩ := i
      obtain ⟨data, rfl⟩ := hdata
      have hq : Q ⟨g, ⟨.data c data, wsz⟩, o, g'⟩ := hQ _ (by simp)
      rcases hstep.data_inv with ⟨b, hb, hw, hsid, rfl⟩ | ⟨habsent, -⟩
      · obtain rfl := hok'.hash.distinct hb ha'
        rw [chunkOf_self, Option.toList_some] at hbytes ⊢
        rw [List.flatten_singleton] at hbytes
        obtain ⟨ho, hstate'⟩ := hchunk hstate hq rfl hbytes
        refine ⟨hstep.ok hok', hw.hash ▸ ha', hopens ho, ?_⟩
        rw [hw.here, hsid, relayedBy]
        simp only [if_true]
        exact hstate'
      · exact absurd ha' (habsent a)
    · have hother' : ∀ data, i.msg ≠ .data c data := fun data heq => hdata ⟨data, heq⟩
      obtain ⟨ha'', hview⟩ := hstep.frame ha' hother' hclose herror
      refine ⟨hstep.ok hok', ha'', hopens (hstep.leaves_open haccept ha' hother'), ?_⟩
      rw [chunkOf_of_ne hother', relayedBy_of_ne hother', Option.toList_none, List.append_nil,
        List.append_nil, hview]
      exact hother hstate (hstep.sid_elsewhere (hok'.positive c a ha') hother' hclose herror)

theorem relay_run {g₀ : Gate} (hok : GateOk g₀) (ha : g₀.hash.Holds c a)
    (hfresh : g₀.view a = .fresh) (hc : Speaks md5.client hello fs) (hs : 0 < s)
    (h : Exec (dispatchSocketMessage md5) FreshAccept g₀ mid g)
    (hstays : ∀ q ∈ mid, q.input.msg ≠ .close c ∧ q.input.msg ≠ .error c)
    (hserved : ∀ q ∈ mid, ServedBy s c q) (hbytes : (chunksOf c mid).flatten <+: stream (hello :: fs)) :
    GateOk g ∧ g.hash.Holds c a ∧ (∀ q ∈ mid, .close c ∉ q.output) ∧
      ∃ done rest head,
        RelayState s c hello fs done rest head (chunksOf c mid) (g.view a) (relayed c mid) := by
  apply chunks_run (P := fun chunks v _ sent => ∃ done rest head,
    RelayState s c hello fs done rest head chunks v sent) hok ha ?_ ?_ ?_ h hstays hserved hbytes
  · refine ⟨[], hello :: fs, [], ?_, ?_, rfl⟩
    · rw [hfresh]
      exact .start _
    · rw [hfresh]
      rfl
  · intro q chunks v sent data hstate hq hmsg hbytes
    obtain ⟨done, rest, head, hstate⟩ := hstate
    rw [hq data hmsg]
    exact hstate.chunk hc hs hbytes q.pre.routes q.input.wsz
  · exact fun hstate _ => hstate

theorem prefix_delivered_tail {str : List Byte} (hc : Speaks str hello fs) (hframes : hello :: fs = done ++ rest) :
    (delivered 6 done).tail <+: delivered 6 fs := by
  cases done with
  | nil => exact List.nil_prefix
  | cons first done =>
    obtain ⟨rfl, hfs⟩ := List.cons.inj hframes
    have hfirst : delivered 6 [hello] = [hello.payload] := by simp [delivered, hc.hello_long]
    rw [← List.singleton_append, Framing.delivered_append, hfirst, List.singleton_append,
      List.tail_cons, hfs]
    change delivered 6 done <+: delivered 6 (done ++ rest)
    rw [Framing.delivered_append]
    exact List.prefix_append _ _

theorem RelayState.sent_prefix (h : RelayState s c hello fs done rest head chunks v sent)
    (hc : Speaks md5.client hello fs) :
    sent <+: (delivered 6 fs).map fun payload => (s, stamped c payload) := by
  rw [h.sent]
  exact (prefix_delivered_tail hc h.frames).map _

/-- When no chunk ends two frames, the receiver keeps up with what arrives. -/
theorem Follows.arrived (h : Follows (hello :: fs) done rest head chunks receiver)
    (hgood : Acceptable 6 (hello :: fs)) (hfirst : 6 ≤ hello.payload.length)
    (hstream : chunks.flatten <+: stream (hello :: fs)) (hfs : ∀ f ∈ fs, f.payload ≠ [])
    (hone : Framing.OneEndPerChunk (hello :: fs) chunks) :
    (delivered 6 done).tail =
      ((Framing.arrived (hello :: fs) chunks.flatten.length).tail).map Frame.payload := by
  have hlong : ∀ f ∈ hello :: fs, 6 ≤ f.payload.length := by
    intro f hf
    rcases List.mem_cons.mp hf with rfl | hf'
    · exact hfirst
    · have hpos := List.length_pos_iff.mpr (hfs f hf')
      have hf' := hgood f hf
      omega
  have hnone := (Framing.noneWaiting_iff (by decide) hlong hstream).mpr hone
  have hall := hnone chunks (List.prefix_refl _)
  rw [h.fed] at hall
  simp only at hall
  rw [hall, ← List.map_tail]

theorem RelayState.sent_arrived (h : RelayState s c hello fs done rest head chunks v sent)
    (hc : Speaks md5.client hello fs) (hstream : chunks.flatten <+: stream (hello :: fs))
    (hfs : ∀ f ∈ fs, f.payload ≠ []) (hone : Framing.OneEndPerChunk (hello :: fs) chunks) :
    sent = (Framing.arrived (hello :: fs) chunks.flatten.length).tail.map fun f =>
      (s, stamped c f.payload) := by
  rw [h.sent, h.toFollows.arrived hc.acceptable hc.hello_long hstream hfs hone, List.map_map]
  rfl

/-- In every run, what leaves for the server `s` while it serves client `c` is an initial segment of
the frames behind the greeting of `c`, with the id of `c`; and `c` stays connected. All frames that
have arrived have left if no chunk ends two of them. -/
theorem client_relayed (md5 : HandshakeMd5) (max : Capacity) (listenId : Int) (s c : Int)
    {hello : Frame beNat} {fs : List (Frame beNat)} {g : Gate}
    {front mid : List (Record Gate GateInput Act)} {r : Record Gate GateInput Act}
    (h : Exec (dispatchSocketMessage md5) FreshAccept (gateInit max listenId) (front ++ r :: mid) g)
    (hlives : Lives c r mid) (hc : Speaks md5.client hello fs) (hs : 0 < s)
    (hserved : ∀ q ∈ mid, ServedBy s c q)
    (hstream : (chunksOf c mid).flatten <+: stream (hello :: fs)) :
    (∃ a, g.hash.Holds c a) ∧ (∀ q ∈ mid, .close c ∉ q.output) ∧
      (relayed c mid <+: (delivered 6 fs).map fun payload => (s, stamped c payload)) ∧
      ((∀ f ∈ fs, f.payload ≠ []) → Framing.OneEndPerChunk (hello :: fs) (chunksOf c mid) →
        relayed c mid = (Framing.arrived (hello :: fs) (chunksOf c mid).flatten.length).tail.map fun f =>
          (s, stamped c f.payload)) := by
  obtain ⟨a, hok, ha, hfresh, hmid⟩ := hlives.slot h
  obtain ⟨-, ha', hopen, done, rest, head, hstate⟩ :=
    relay_run hok ha hfresh hc hs hmid hlives.stays hserved hstream
  exact ⟨⟨a, ha'⟩, hopen, hstate.sent_prefix hc, hstate.sent_arrived hc hstream⟩

instance (s c : Int) (r : Record Gate GateInput Act) : Decidable (ServedBy s c r) :=
  decidable_of_iff ((ownChunk c r).isSome = true → r.pre.sid = s) <| by
    rcases r with ⟨pre, ⟨msg, wsz⟩, o, post⟩
    cases msg with
    | data id data =>
      by_cases hid : id = c
      · simp [ServedBy, ownChunk, hid]
      · simp [ServedBy, ownChunk, hid]
    | connect id => simp [ServedBy, ownChunk]
    | close id => simp [ServedBy, ownChunk]
    | error id => simp [ServedBy, ownChunk]
    | accept id ud => simp [ServedBy, ownChunk]

def clientFrame : Frame beNat := packageFrame 0 1 [0, 0, 0, 7] (by decide)

theorem gateway_speaks : Speaks gatewayMd5.client clientHandshake [clientFrame] where
  plain := by decide
  greets := ⟨_, _, rfl⟩
  ordinary := by
    intro f hf
    rw [List.mem_singleton.mp hf]
    rfl
  acceptable := by
    simp only [Acceptable, List.forall_mem_cons]
    decide

theorem client_relayed_cut :
    ∃ r mid g, Exec (dispatchSocketMessage gatewayMd5) FreshAccept (gateInit ⟨4, by decide⟩ 7) ([] ++ r :: mid) g ∧
      relayed 5 mid = [(4, package 5 1 [0, 0, 0, 7])] ∧
      (∃ a, g.hash.Holds 5 a) ∧ (∀ q ∈ mid, .close 5 ∉ q.output) ∧
      relayed 5 mid <+:
        (delivered 6 [clientFrame]).map fun payload => (4, stamped 5 payload) := by
  let pieces := [clientHandshake.bytes.take 9, clientHandshake.bytes.drop 9, clientFrame.bytes]
  have hrun : (execute (dispatchSocketMessage gatewayMd5) FreshAccept (gateInit ⟨4, by decide⟩ 7)
      [⟨.accept 7 5, 0⟩, ⟨.accept 7 4, 0⟩, ⟨.data 4 (handshakePackage 3 gatewayMd5.server), 0⟩,
        ⟨.data 5 (clientHandshake.bytes.take 9), 0⟩, ⟨.data 4 [0, 8, 0], 0⟩,
        ⟨.data 5 (clientHandshake.bytes.drop 9), 0⟩, ⟨.data 5 clientFrame.bytes, 0⟩]).map (fun run =>
      run.1.head?.any (fun r => decide (r.input.msg = .accept 7 5) && decide (.start 5 ∈ r.output)) &&
        decide (∀ q ∈ run.1.tail, (q.input.msg ≠ .close 5 ∧ q.input.msg ≠ .error 5) ∧
          ServedBy 4 5 q) &&
        decide (chunksOf 5 run.1.tail = pieces) &&
        decide (relayed 5 run.1.tail = [(4, package 5 1 [0, 0, 0, 7])])) = some true := by
    decide +kernel
  obtain ⟨tr, g, h, hdata⟩ := exists_exec _ hrun
  rcases tr with - | ⟨r, mid⟩
  · exact absurd hdata (by simp)
  simp only [List.head?_cons, Option.any_some, List.tail_cons, Bool.and_eq_true,
    decide_eq_true_eq] at hdata
  obtain ⟨⟨⟨⟨haccept, hstart⟩, hmid⟩, hchunks⟩, hrelayed⟩ := hdata
  have hmid := of_decide_eq_true hmid
  have hlives : Lives 5 r mid := ⟨⟨7, haccept⟩, hstart, fun q hq => (hmid q hq).1⟩
  have hstream : (chunksOf 5 mid).flatten <+: stream [clientHandshake, clientFrame] := by
    rw [of_decide_eq_true hchunks]
    decide
  obtain ⟨hlive, hopen, hprefix, -⟩ :=
    @client_relayed gatewayMd5 _ 7 4 5 clientHandshake [clientFrame] g [] mid r h hlives
      gateway_speaks (by decide) (fun q hq => (hmid q hq).2) hstream
  exact ⟨r, mid, g, h, of_decide_eq_true hrelayed, hlive, hopen, hprefix⟩

end NetgameFormal
