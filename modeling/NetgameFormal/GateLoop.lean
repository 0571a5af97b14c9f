import NetgameFormal.GateIsolation
import NetgameFormal.GateTable
import NetgameFormal.MessageQueue
import NetgameFormal.Batches
import Mathlib.Data.List.Nodup

/-!
# gate_socket.c and main.c: the event loop of the gateway

`gate_socket_poll` queues one event of the socket layer, and the loop works the
queue off whenever no more events are waiting. Which events share a batch
does not matter: the loop executes `dispatchSocketMessage` on the events in the
order in which they were polled.
-/

set_option autoImplicit false

namespace NetgameFormal

/-- What `socket_server_poll` reports. -/
inductive PolledEvent where
  | exit
  | data (id : Int) (data : List Byte)
  | close (id : Int)
  | opened (id : Int)
  | error (id : Int)
  | accept (id ud : Int)
  | unknown (type : Int)
  deriving DecidableEq

/-- The message `forward_message` queues for an event; it is not called for the other two. -/
def forwardMessage : PolledEvent → Option GateMessage
  | .exit => none
  | .data id data => some (.data id data)
  | .close id => some (.close id)
  | .opened id => some (.connect id)
  | .error id => some (.error id)
  | .accept id ud => some (.accept id ud)
  | .unknown _ => none

def gateSocketPoll (mq : MessageQueue GateMessage) (event : PolledEvent) (more : Bool) :
    Int × MessageQueue GateMessage :=
  if event = .exit then (0, mq)
  else
    match forwardMessage event with
    | none => (-1, mq)
    | some msg => (if more then -1 else 1, mq.push msg)

/-- The `while` loop; `answers k` is what `socket_server_send` returns for its `k`-th message. -/
def gateDispatch (md5 : HandshakeMd5) :
    Nat → (Nat → Int) → Gate → MessageQueue GateMessage →
      Option (Gate × MessageQueue GateMessage × List Act)
  | 0, _, _, _ => none
  | fuel + 1, answers, g, mq => do
    let (mq, message) ← mq.pop
    match message with
    | none => some (g, mq, [])
    | some msg =>
      let (g, acts) ← dispatchSocketMessage md5 g ⟨msg, answers 0⟩
      let (g, mq, rest) ← gateDispatch md5 fuel (fun k => answers (k + 1)) g mq
      some (g, mq, acts ++ rest)

structure GateProcess where
  gate : Gate
  mq : MessageQueue GateMessage
  running : Bool

/-- One turn of the `for (;;)` loop: an event, whether more are waiting, and the send results. -/
structure LoopTurn where
  event : PolledEvent
  more : Bool
  answers : Nat → Int

def gateLoopStep (md5 : HandshakeMd5) (p : GateProcess) (t : LoopTurn) :
    Option (GateProcess × List Act) :=
  let polled := gateSocketPoll p.mq t.event t.more
  if polled.1 = 0 then some ({ p with mq := polled.2, running := false }, [])
  else if polled.1 < 0 then some ({ p with mq := polled.2 }, [])
  else do
    let (g, mq, acts) ← gateDispatch md5 (polled.2.length + 1) t.answers p.gate polled.2
    some ({ p with gate := g, mq := mq }, acts)

def gateProcessInit (max : Capacity) (listenId : Int) : GateProcess :=
  ⟨gateInit max listenId, .new, true⟩

/-- The sockets that `_gate_release` closes. -/
def gateRelease (g : Gate) : List Act :=
  ((List.range g.maxConnection).filter fun i => 0 ≤ (g.conn i).id).map (fun i => .close (g.conn i).id) ++
    if g.listenId ≥ 0 then [.close g.listenId] else []

/-- The messages whose buffers `gate_mq_release` frees. -/
def gateMqRelease : Nat → MessageQueue GateMessage → Option (List GateMessage)
  | 0, _ => none
  | fuel + 1, mq => do
    let (mq, message) ← mq.pop
    match message with
    | none => some []
    | some msg => (gateMqRelease fuel mq).map fun rest => msg :: rest

/-! ## The loop as an execution of the gateway -/

def queuedInputs (answers : Nat → Int) (messages : List GateMessage) : List GateInput :=
  messages.mapIdx fun k msg => ⟨msg, answers k⟩

@[simp] theorem queuedInputs_cons (answers : Nat → Int) (msg : GateMessage)
    (messages : List GateMessage) : queuedInputs answers (msg :: messages) =
      ⟨msg, answers 0⟩ :: queuedInputs (fun k => answers (k + 1)) messages := by
  simp [queuedInputs]

@[simp] theorem queuedInputs_msg (answers : Nat → Int) (messages : List GateMessage) :
    (queuedInputs answers messages).map GateInput.msg = messages := by
  induction messages generalizing answers with
  | nil => rfl
  | cons msg messages ih => rw [queuedInputs_cons, List.map_cons, ih]

/-- The loop runs, and should this turn work the queue off, the environment keeps `ok` meanwhile. -/
def LoopAdmits (ok : Gate → GateInput → Prop) (md5 : HandshakeMd5) (p : GateProcess)
    (t : LoopTurn) : Prop :=
  p.running = true ∧ ((gateSocketPoll p.mq t.event t.more).1 = 1 →
    Along ok (dispatchSocketMessage md5) p.gate
      (queuedInputs t.answers (gateSocketPoll p.mq t.event t.more).2.messages))

def polledIn (tr : List (Record GateProcess LoopTurn Act)) : List GateMessage :=
  tr.filterMap fun r => forwardMessage r.input.event

def dispatchedIn (tr : List (Record Gate GateInput Act)) : List GateMessage :=
  tr.map fun r => r.input.msg

variable {md5 : HandshakeMd5} {ok : Gate → GateInput → Prop} {g : Gate} {p p' : GateProcess}
variable {t : LoopTurn} {q : MessageQueue GateMessage} {l : List GateMessage}

@[simp] theorem polledIn_snoc (tr : List (Record GateProcess LoopTurn Act))
    (r : Record GateProcess LoopTurn Act) :
    polledIn (tr ++ [r]) = polledIn tr ++ (forwardMessage r.input.event).toList := by
  rw [polledIn, List.filterMap_append]
  cases h : forwardMessage r.input.event with
  | none => simp [polledIn, h]
  | some msg => simp [polledIn, h]

theorem gateSocketPoll_contains (hq : q.Contains l) (event : PolledEvent) (more : Bool) :
    (gateSocketPoll q event more).2.Contains (l ++ (forwardMessage event).toList) := by
  unfold gateSocketPoll
  by_cases hexit : event = .exit
  · simpa [hexit, forwardMessage] using hq
  rw [if_neg hexit]
  cases forwardMessage event with
  | none => simpa using hq
  | some msg => exact hq.push msg

theorem gateSocketPoll_result (q : MessageQueue GateMessage) (event : PolledEvent) (more : Bool) :
    (gateSocketPoll q event more).1 = 0 ∨ (gateSocketPoll q event more).1 = -1 ∨
      (gateSocketPoll q event more).1 = 1 := by
  unfold gateSocketPoll
  by_cases hexit : event = .exit
  · simp [hexit]
  rw [if_neg hexit]
  cases forwardMessage event with
  | none => exact Or.inr (Or.inl rfl)
  | some msg => cases more <;> simp

/-- Working the queue off is running the gateway on what is in it. -/
theorem gateDispatch_eq (md5 : HandshakeMd5) (hq : q.Contains l) {fuel : Nat}
    (hfuel : l.length < fuel) (answers : Nat → Int) (g : Gate) :
    ∃ q' : MessageQueue GateMessage, q'.Contains [] ∧
      gateDispatch md5 fuel answers g q =
        (runBatch (dispatchSocketMessage md5) g (queuedInputs answers l)).map fun r =>
          (r.1, q', r.2) := by
  induction l generalizing fuel answers g q with
  | nil =>
    obtain ⟨fuel, rfl⟩ := Nat.exists_eq_succ_of_ne_zero (Nat.ne_of_gt hfuel)
    refine ⟨q, hq, ?_⟩
    simp [gateDispatch, hq.pop_nil, queuedInputs, runBatch]
  | cons msg l ih =>
    obtain ⟨fuel, rfl⟩ := Nat.exists_eq_succ_of_ne_zero (Nat.ne_zero_of_lt hfuel)
    obtain ⟨q₁, hpop, hq₁⟩ := hq.pop_cons
    have hfuel' : l.length < fuel := by
      rw [List.length_cons] at hfuel
      omega
    rw [queuedInputs_cons]
    cases hstep : dispatchSocketMessage md5 g ⟨msg, answers 0⟩ with
    | none =>
      obtain ⟨q', hq', -⟩ := ih hq₁ hfuel' answers g
      refine ⟨q', hq', ?_⟩
      simp [gateDispatch, hpop, hstep, runBatch_stopped hstep]
    | some result =>
      obtain ⟨g₁, acts⟩ := result
      obtain ⟨q', hq', hrest⟩ := ih hq₁ hfuel' (fun k => answers (k + 1)) g₁
      refine ⟨q', hq', ?_⟩
      rw [runBatch_cons hstep]
      simp only [gateDispatch, hpop, hstep, hrest, Option.bind_eq_bind, Option.bind_some]
      cases runBatch (dispatchSocketMessage md5) g₁ (queuedInputs (fun k => answers (k + 1)) l) <;> rfl

theorem gateLoopStep_queues (h : (gateSocketPoll p.mq t.event t.more).1 ≠ 1) :
    ∃ running, gateLoopStep md5 p t =
      some (⟨p.gate, (gateSocketPoll p.mq t.event t.more).2, running⟩, []) := by
  unfold gateLoopStep
  rcases gateSocketPoll_result p.mq t.event t.more with hpoll | hpoll | hpoll
  · exact ⟨false, by simp [hpoll]⟩
  · exact ⟨p.running, by simp [hpoll]⟩
  · exact absurd hpoll h

theorem gateLoopStep_flushes (h : (gateSocketPoll p.mq t.event t.more).1 = 1)
    (hq : (gateSocketPoll p.mq t.event t.more).2.Contains l) :
    ∃ q' : MessageQueue GateMessage, q'.Contains [] ∧ gateLoopStep md5 p t =
      (runBatch (dispatchSocketMessage md5) p.gate (queuedInputs t.answers l)).map fun r =>
        (⟨r.1, q', p.running⟩, r.2) := by
  obtain ⟨q', hq', hdispatch⟩ := gateDispatch_eq md5 hq (Nat.lt_succ_self _) t.answers p.gate
  refine ⟨q', hq', ?_⟩
  unfold gateLoopStep
  rw [← hq.length_eq] at hdispatch
  simp only [h, Int.one_ne_zero, if_false, show ¬ (1 : Int) < 0 by decide, hdispatch,
    Option.bind_eq_bind]
  cases runBatch (dispatchSocketMessage md5) p.gate (queuedInputs t.answers l) <;> rfl

/-- One turn, seen by the gateway. -/
structure TurnExecutes (ok : Gate → GateInput → Prop) (md5 : HandshakeMd5) (l : List GateMessage)
    (p : GateProcess) (t : LoopTurn) (p' : GateProcess) (o : List Act)
    (tr : List (Record Gate GateInput Act)) (l' : List GateMessage) : Prop where
  queue : p'.mq.Contains l'
  exec : Exec (dispatchSocketMessage md5) ok p.gate tr p'.gate
  outputs : outputsOf tr = o
  messages : l ++ (forwardMessage t.event).toList = dispatchedIn tr ++ l'
  flushed : (gateSocketPoll p.mq t.event t.more).1 = 1 → l' = []

theorem gateLoopStep_executes {o : List Act} (hq : p.mq.Contains l) (hok : LoopAdmits ok md5 p t)
    (h : gateLoopStep md5 p t = some (p', o)) : ∃ tr l', TurnExecutes ok md5 l p t p' o tr l' := by
  have hpolled := gateSocketPoll_contains hq t.event t.more
  by_cases hone : (gateSocketPoll p.mq t.event t.more).1 = 1
  · obtain ⟨q', hq', hstep⟩ := @gateLoopStep_flushes md5 _ _ _ hone hpolled
    rw [hstep, Option.map_eq_some_iff] at h
    obtain ⟨result, hrun, hpair⟩ := h
    obtain ⟨rfl, rfl⟩ := Prod.mk.inj hpair
    have halong := hok.2 hone
    rw [hpolled.messages_eq] at halong
    obtain ⟨tr, hexec, hinputs, houtputs⟩ := Exec.batch .nil halong hrun
    refine ⟨tr, [], hq', hexec, houtputs, ?_, fun _ => rfl⟩
    rw [List.append_nil, dispatchedIn, ← queuedInputs_msg t.answers (l ++ _), ← hinputs,
      List.map_map]
    rfl
  · obtain ⟨running, hstep⟩ := @gateLoopStep_queues md5 _ _ hone
    obtain ⟨rfl, rfl⟩ := Prod.mk.inj (Option.some.inj (hstep.symm.trans h))
    exact ⟨[], _, hpolled, .nil, rfl, rfl, fun hone' => absurd hone' hone⟩

theorem dispatchedIn_append (tr tr' : List (Record Gate GateInput Act)) :
    dispatchedIn (tr ++ tr') = dispatchedIn tr ++ dispatchedIn tr' :=
  List.map_append

/-- The run lemma: the turns of the loop, put together, execute the gateway. -/
theorem gateLoop_executes {max : Capacity} {listenId : Int}
    {tr : List (Record GateProcess LoopTurn Act)}
    (h : Exec (gateLoopStep md5) (LoopAdmits ok md5) (gateProcessInit max listenId) tr p) :
    ∃ tr' l, p.mq.Contains l ∧
      Exec (dispatchSocketMessage md5) ok (gateInit max listenId) tr' p.gate ∧
      outputsOf tr' = outputsOf tr ∧ polledIn tr = dispatchedIn tr' ++ l := by
  induction h with
  | nil => exact ⟨[], [], MessageQueue.contains_new, .nil, rfl, rfl⟩
  | @snoc tr p p' t o _ hok hstep ih =>
    obtain ⟨tr', l, hq, hexec, houtputs, hpolled⟩ := ih
    obtain ⟨tr'', l', hturn⟩ := gateLoopStep_executes hq hok hstep
    refine ⟨tr' ++ tr'', l', hturn.queue, hexec.append hturn.exec, ?_, ?_⟩
    · rw [outputsOf_append, outputsOf_snoc, houtputs, hturn.outputs]
    · rw [polledIn_snoc, dispatchedIn_append, hpolled, List.append_assoc, hturn.messages,
        List.append_assoc]

/-- The batches that the loop works off make no difference to the gateway: a run of the loop is an
execution of `dispatchSocketMessage` on the events polled so far, less those that still wait. -/
theorem gate_loop_refines (md5 : HandshakeMd5) (max : Capacity) (listenId : Int)
    {ok : Gate → GateInput → Prop} {tr : List (Record GateProcess LoopTurn Act)} {p : GateProcess}
    (h : Exec (gateLoopStep md5) (LoopAdmits ok md5) (gateProcessInit max listenId) tr p) :
    (∃ tr', Exec (dispatchSocketMessage md5) ok (gateInit max listenId) tr' p.gate ∧
      outputsOf tr' = outputsOf tr ∧ polledIn tr = dispatchedIn tr' ++ p.mq.messages) ∧
    ∀ r ∈ tr, (gateSocketPoll r.pre.mq r.input.event r.input.more).1 = 1 →
      r.post.mq.messages = [] := by
  constructor
  · obtain ⟨tr', l, hq, hexec, houtputs, hpolled⟩ := gateLoop_executes h
    refine ⟨tr', hexec, houtputs, ?_⟩
    rw [hq.messages_eq]
    exact hpolled
  · intro r hr hone
    obtain ⟨front, back, rfl⟩ := List.append_of_mem hr
    obtain ⟨p₁, hfront, hback⟩ := h.split
    obtain ⟨hpre, hok, hstep, -⟩ := hback.cons_inv
    obtain ⟨tr', l, hq, -⟩ := gateLoop_executes hfront
    obtain ⟨tr'', l', hturn⟩ := gateLoopStep_executes hq hok hstep
    rw [hturn.queue.messages_eq]
    apply hturn.flushed
    rw [← hpre]
    exact hone

instance (ok : Gate → GateInput → Prop) [∀ g i, Decidable (ok g i)] (md5 : HandshakeMd5)
    (p : GateProcess) (t : LoopTurn) : Decidable (LoopAdmits ok md5 p t) :=
  inferInstanceAs (Decidable (_ ∧ (_ → _)))

/-- Two accepts and a client's handshake in one batch; the frame after them still waits. -/
theorem gate_loop_refines_batch :
    ∃ tr p, Exec (gateLoopStep gatewayMd5) (LoopAdmits SocketContract gatewayMd5) (gateProcessInit ⟨4, by decide⟩ 7) tr p ∧
      outputsOf tr ≠ [] ∧ p.mq.messages = [.data 5 (package 0 1 [8, 9])] ∧
      ∃ tr', Exec (dispatchSocketMessage gatewayMd5) SocketContract (gateInit ⟨4, by decide⟩ 7) tr' p.gate ∧
        outputsOf tr' = outputsOf tr ∧ polledIn tr = dispatchedIn tr' ++ p.mq.messages := by
  have hrun : (execute (gateLoopStep gatewayMd5) (LoopAdmits SocketContract gatewayMd5)
      (gateProcessInit ⟨4, by decide⟩ 7)
      [⟨.accept 7 5, true, fun _ => 0⟩, ⟨.unknown 9, false, fun _ => 0⟩,
        ⟨.accept 7 9, true, fun _ => 0⟩,
        ⟨.data 5 (handshakePackage 3 gatewayMd5.client), false, fun _ => 0⟩,
        ⟨.data 5 (package 0 1 [8, 9]), true, fun _ => 0⟩]).map (fun run =>
      decide (outputsOf run.1 ≠ []) &&
        decide (run.2.mq.messages = [.data 5 (package 0 1 [8, 9])])) = some true := by
    decide +kernel
  obtain ⟨tr, p, h, hdata⟩ := exists_exec _ hrun
  simp only [Bool.and_eq_true, decide_eq_true_eq] at hdata
  obtain ⟨hacts, hwaits⟩ := hdata
  exact ⟨tr, p, h, hacts, hwaits, (gate_loop_refines gatewayMd5 _ 7 h).1⟩

/-! ## Shutting down -/

theorem SocketContract.answered {i : GateInput} (hok : GateOk g) (hi : SocketContract g i) :
    ∃ g' o, dispatchSocketMessage md5 g i = some (g', o) ∧ GateOk g' := by
  obtain ⟨hfresh, hrange, hlisten⟩ := hi
  rcases dispatch_total md5 hok hfresh with ⟨g', o, hrun, hstep⟩ | ⟨-, hnone⟩
  · exact ⟨g', o, hrun, hstep.ok hok⟩
  · exact absurd hrange (hnone hlisten)

theorem gateLoopStep_total (hok : GateOk p.gate) (hq : p.mq.Contains l)
    (ht : LoopAdmits SocketContract md5 p t) : ∃ p' o, gateLoopStep md5 p t = some (p', o) := by
  have hpolled := gateSocketPoll_contains hq t.event t.more
  by_cases hone : (gateSocketPoll p.mq t.event t.more).1 = 1
  · obtain ⟨q', -, hstep⟩ := @gateLoopStep_flushes md5 _ _ _ hone hpolled
    have halong := ht.2 hone
    rw [hpolled.messages_eq] at halong
    obtain ⟨g', o, hrun, -⟩ :=
      runBatch_total GateOk (fun hok hi => SocketContract.answered hok hi) hok halong
    exact ⟨⟨g', q', p.running⟩, o, by rw [hstep, hrun, Option.map_some]⟩
  · obtain ⟨running, hstep⟩ := @gateLoopStep_queues md5 _ _ hone
    exact ⟨_, _, hstep⟩

theorem gateMqRelease_eq (hq : q.Contains l) {fuel : Nat} (hfuel : l.length < fuel) :
    gateMqRelease fuel q = some l := by
  induction l generalizing fuel q with
  | nil =>
    obtain ⟨fuel, rfl⟩ := Nat.exists_eq_succ_of_ne_zero (Nat.ne_of_gt hfuel)
    simp [gateMqRelease, hq.pop_nil]
  | cons msg l ih =>
    obtain ⟨fuel, rfl⟩ := Nat.exists_eq_succ_of_ne_zero (Nat.ne_zero_of_lt hfuel)
    obtain ⟨q₁, hpop, hq₁⟩ := hq.pop_cons
    have hfuel' : l.length < fuel := by
      rw [List.length_cons] at hfuel
      omega
    simp [gateMqRelease, hpop, ih hq₁ hfuel']

/-- The ids in the slots, in the order of the slots. -/
def Gate.liveIds (g : Gate) : List Int :=
  ((List.range g.maxConnection).filter fun i => 0 ≤ (g.conn i).id).map fun i => (g.conn i).id

theorem gateRelease_eq (g : Gate) : gateRelease g =
    g.liveIds.map Act.close ++ if g.listenId ≥ 0 then [.close g.listenId] else [] := by
  rw [gateRelease, Gate.liveIds, List.map_map]
  rfl

theorem GateOk.holds_conn (hok : GateOk g) {a : Nat} (ha : a < g.maxConnection)
    (hid : 0 ≤ (g.conn a).id) : g.hash.Holds (g.conn a).id a := by
  have hcap : a < g.hash.cap := hok.cap ▸ ha
  exact ⟨hcap, (hok.ids a hcap).symm, by omega⟩

theorem GateOk.mem_liveIds (hok : GateOk g) {c : Int} :
    c ∈ g.liveIds ↔ ∃ a, g.hash.Holds c a := by
  simp only [Gate.liveIds, List.mem_map, List.mem_filter, List.mem_range, decide_eq_true_eq]
  constructor
  · intro h
    obtain ⟨a, ⟨ha, hid⟩, rfl⟩ := h
    exact ⟨a, hok.holds_conn ha hid⟩
  · intro h
    obtain ⟨a, ha⟩ := h
    have hpos := hok.positive c a ha
    have hid : (g.conn a).id = c := (hok.ids a ha.1).trans ha.2.1
    exact ⟨a, ⟨hok.cap ▸ ha.1, by omega⟩, hid⟩

theorem GateOk.liveIds_nodup (hok : GateOk g) : g.liveIds.Nodup := by
  apply List.Nodup.map_on
  · intro a ha b hb heq
    simp only [List.mem_filter, List.mem_range, decide_eq_true_eq] at ha hb
    have hha := hok.holds_conn ha.1 ha.2
    have hhb := hok.holds_conn hb.1 hb.2
    rw [← heq] at hhb
    exact hok.hash.distinct hha hhb
  · exact List.Nodup.filter _ List.nodup_range

theorem gate_listenId {max : Capacity} {listenId : Int} {tr : List (Record Gate GateInput Act)}
    (h : Exec (dispatchSocketMessage md5) FreshAccept (gateInit max listenId) tr g) :
    g.listenId = listenId := by
  induction h with
  | nil => rfl
  | snoc hrun hfresh hstep ih =>
    have hrec := dispatch_step (gate_invariant hrun) hfresh hstep
    exact hrec.constants.1.trans ih

theorem GateStep.accepted_started {g' : Gate} {o : List Act} {c l wsz : Int} {a : Nat}
    (hfresh : FreshAccept g ⟨.accept l c, wsz⟩) (h : GateStep md5 g ⟨.accept l c, wsz⟩ g' o)
    (ha : g'.hash.Holds c a) : .start c ∈ o := by
  have hnot : ¬ g.hash.Holds c a := fun hlive => hfresh.2 a hlive.1 hlive.2.1
  cases h with
  | remove hmsg _ _ _ => simp at hmsg
  | gone hmsg _ => simp at hmsg
  | refuse _ => exact absurd ha hnot
  | accept _ _ _ _ _ _ => exact List.mem_singleton.mpr rfl

theorem holds_throughout {g₀ : Gate} {c : Int} {a : Nat} {mid : List (Record Gate GateInput Act)}
    (hok : GateOk g₀) (ha : g₀.hash.Holds c a)
    (h : Exec (dispatchSocketMessage md5) FreshAccept g₀ mid g)
    (hstays : ∀ q ∈ mid, q.input.msg ≠ .close c ∧ q.input.msg ≠ .error c) :
    GateOk g ∧ g.hash.Holds c a := by
  induction h with
  | nil => exact ⟨hok, ha⟩
  | @snoc mid g g' i o _ hfresh hstep ih =>
    obtain ⟨hok', ha'⟩ := ih fun q hq => hstays q (List.mem_append_left _ hq)
    have hrec := dispatch_step hok' hfresh hstep
    refine ⟨hrec.ok hok', ?_⟩
    obtain ⟨hclose, herror⟩ := hstays ⟨g, i, o, g'⟩ (by simp)
    by_cases hdata : ∃ data, i.msg = .data c data
    · obtain ⟨msg, wsz⟩ := i
      obtain ⟨data, rfl⟩ := hdata
      rcases hrec.data_inv with ⟨b, -, hw, -, -⟩ | ⟨habsent, -⟩
      · rw [hw.hash]
        exact ha'
      · exact absurd ha' (habsent a)
    · exact (hrec.frame ha' (fun data heq => hdata ⟨data, heq⟩) hclose herror).1

/-- The live connections are those that were started and neither closed nor failed since. -/
theorem live_iff_started {max : Capacity} {listenId : Int} {tr : List (Record Gate GateInput Act)}
    (h : Exec (dispatchSocketMessage md5) FreshAccept (gateInit max listenId) tr g) (c : Int) :
    (∃ a, g.hash.Holds c a) ↔ ∃ front r mid, tr = front ++ r :: mid ∧ Lives c r mid := by
  induction h with
  | nil =>
    constructor
    · intro h'
      obtain ⟨a, ha⟩ := h'
      exact absurd ha.2.1.symm ha.2.2
    · intro h'
      obtain ⟨front, r, mid, heq, -⟩ := h'
      simp at heq
  | @snoc tr g g' i o hrun hfresh hstep ih =>
    have hok := gate_invariant hrun
    have hrec := dispatch_step hok hfresh hstep
    constructor
    · intro h'
      obtain ⟨a, ha⟩ := h'
      rcases hrec.live_inv hok ha with ⟨hlive, hclose, herror⟩ | ⟨⟨l, haccept⟩, -⟩
      · obtain ⟨front, r, mid, rfl, hc⟩ := ih.mp ⟨a, hlive⟩
        refine ⟨front, r, mid ++ [⟨g, i, o, g'⟩], by simp, hc.accepted, hc.started, ?_⟩
        intro q hq
        rcases List.mem_append.mp hq with hq | hq
        · exact hc.stays q hq
        · rw [List.mem_singleton.mp hq]
          exact ⟨hclose, herror⟩
      · obtain ⟨msg, wsz⟩ := i
        obtain rfl : msg = .accept l c := haccept
        have hstart := hrec.accepted_started hfresh ha
        exact ⟨tr, ⟨g, _, o, g'⟩, [], rfl, ⟨l, rfl⟩, hstart, by simp⟩
    · intro h'
      obtain ⟨front, r, mid, heq, hc⟩ := h'
      have hall := hrun.snoc hfresh hstep
      rw [heq] at hall
      obtain ⟨a, hok', ha, -, hmid⟩ := hc.slot hall
      exact ⟨a, (holds_throughout hok' ha hmid hc.stays).2⟩

/-- No assertion fails in a turn of the loop. When the gateway has left it, it closes the connections
that were started and not removed since, each once, and the listening socket, and frees the
messages that were polled and not dispatched. -/
theorem gate_loop_shutdown (md5 : HandshakeMd5) (max : Capacity) (listenId : Int)
    {tr : List (Record GateProcess LoopTurn Act)} {p : GateProcess}
    (h : Exec (gateLoopStep md5) (LoopAdmits SocketContract md5) (gateProcessInit max listenId) tr p) :
    (∀ t, LoopAdmits SocketContract md5 p t → ∃ p' o, gateLoopStep md5 p t = some (p', o)) ∧
    ∃ tr' rest, ∃ live : List Int,
      Exec (dispatchSocketMessage md5) SocketContract (gateInit max listenId) tr' p.gate ∧
      outputsOf tr' = outputsOf tr ∧ polledIn tr = dispatchedIn tr' ++ rest ∧
      gateMqRelease (p.mq.length + 1) p.mq = some rest ∧
      gateRelease p.gate =
        live.map Act.close ++ (if listenId ≥ 0 then [.close listenId] else []) ∧
      live.Nodup ∧ ∀ c, c ∈ live ↔ ∃ front r mid, tr' = front ++ r :: mid ∧ Lives c r mid := by
  obtain ⟨tr', rest, hq, hexec, houtputs, hpolled⟩ := gateLoop_executes h
  have hfresh := hexec.weaken And.left
  have hok := gate_invariant hfresh
  constructor
  · intro t ht
    exact gateLoopStep_total hok hq ht
  · refine ⟨tr', rest, p.gate.liveIds, hexec, houtputs, hpolled, ?_, ?_, hok.liveIds_nodup, ?_⟩
    · apply gateMqRelease_eq hq
      rw [hq.length_eq]
      exact Nat.lt_succ_self _
    · rw [gateRelease_eq, gate_listenId hfresh]
    · intro c
      rw [hok.mem_liveIds, live_iff_started hfresh]

theorem gate_loop_shutdown_run :
    ∃ tr p, Exec (gateLoopStep gatewayMd5) (LoopAdmits SocketContract gatewayMd5) (gateProcessInit ⟨4, by decide⟩ 7) tr p ∧
      p.running = false ∧ gateRelease p.gate = [.close 5, .close 7] ∧
      gateMqRelease (p.mq.length + 1) p.mq = some [.error 5] ∧
      ∃ tr' rest, ∃ live : List Int,
        Exec (dispatchSocketMessage gatewayMd5) SocketContract (gateInit ⟨4, by decide⟩ 7) tr' p.gate ∧
        outputsOf tr' = outputsOf tr ∧ polledIn tr = dispatchedIn tr' ++ rest ∧
        gateMqRelease (p.mq.length + 1) p.mq = some rest ∧
        gateRelease p.gate = live.map Act.close ++ [.close 7] ∧
        live.Nodup ∧ ∀ c, c ∈ live ↔ ∃ front r mid, tr' = front ++ r :: mid ∧ Lives c r mid := by
  have hrun : (execute (gateLoopStep gatewayMd5) (LoopAdmits SocketContract gatewayMd5)
      (gateProcessInit ⟨4, by decide⟩ 7)
      [⟨.accept 7 5, true, fun _ => 0⟩, ⟨.accept 7 9, true, fun _ => 0⟩,
        ⟨.close 9, false, fun _ => 0⟩, ⟨.error 5, true, fun _ => 0⟩,
        ⟨.exit, false, fun _ => 0⟩]).map (fun run =>
      decide (run.2.running = false) && decide (gateRelease run.2.gate = [.close 5, .close 7]) &&
        decide (gateMqRelease (run.2.mq.length + 1) run.2.mq = some [.error 5])) = some true := by
    decide +kernel
  obtain ⟨tr, p, h, hdata⟩ := exists_exec _ hrun
  simp only [Bool.and_eq_true, decide_eq_true_eq] at hdata
  obtain ⟨⟨hstopped, hclosed⟩, hfreed⟩ := hdata
  exact ⟨tr, p, h, hstopped, hclosed, hfreed, (gate_loop_shutdown gatewayMd5 _ 7 h).2⟩

end NetgameFormal
