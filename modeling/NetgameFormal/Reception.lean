import NetgameFormal.GateFrames
import NetgameFormal.ClientSteps
import NetgameFormal.FramingRuns

/-!
# What one connection receives, at either end

A delivery is one chunk of a connection together with the frames handed on while
it was processed and the databuffer before and after it. The deliveries of a
connection of the gateway and those of a client socket are read off the runs of
the two models, and both follow the receiver of `Framing`.
-/

set_option autoImplicit false

namespace NetgameFormal

open Framing (Receiver)

structure Delivery where
  before : Receiver Byte
  chunk : List Byte
  handed : List (List Byte)
  after : Receiver Byte

/-- The deliveries of a receiver with minimum length `m` that starts idle. -/
inductive Fed (m : Nat) : List Delivery → Receiver Byte → Prop where
  | nil : Fed m [] .idle
  | snoc {ds : List Delivery} {d : Delivery} : Fed m ds d.before →
      d.handed = (Framing.feed beNat m d.before d.chunk).2.toList.map rebuiltFrame →
      d.after = (Framing.feed beNat m d.before d.chunk).1 → Fed m (ds ++ [d]) d.after

def received (ds : List Delivery) : List Byte := (ds.map Delivery.chunk).flatten

def handed (ds : List Delivery) : List (List Byte) := ds.flatMap Delivery.handed

@[simp] theorem received_snoc (ds : List Delivery) (d : Delivery) :
    received (ds ++ [d]) = received ds ++ d.chunk := by
  simp [received]

@[simp] theorem handed_snoc (ds : List Delivery) (d : Delivery) :
    handed (ds ++ [d]) = handed ds ++ d.handed := by
  simp [handed]

/-- The stream offsets at which `databuffer_readheader` takes a length from the
buffer: no length is pending and two bytes are there; `n` bytes came before. -/
def lengthReads : Nat → List Delivery → List Nat
  | _, [] => []
  | n, d :: ds =>
    (if d.before.header = 0 ∧ 2 ≤ (d.before.pending ++ d.chunk).length then
      [n - d.before.pending.length] else []) ++ lengthReads (n + d.chunk.length) ds

variable {m : Nat} {ds : List Delivery} {d : Delivery} {now : Receiver Byte}

theorem Fed.feedAll_eq (h : Fed m ds now) :
    (Framing.feedAll beNat m .idle (ds.map Delivery.chunk)).1 = now ∧
      handed ds =
        (Framing.feedAll beNat m .idle (ds.map Delivery.chunk)).2.map rebuiltFrame := by
  induction h with
  | nil => exact ⟨rfl, rfl⟩
  | @snoc ds d _ hhanded hafter ih =>
    obtain ⟨hnow, hout⟩ := ih
    simp only [List.map_append, List.map_cons, List.map_nil, Framing.feedAll_snoc, hnow,
      handed_snoc, hout, hhanded, hafter, and_self]

theorem Fed.of_append {ds' : List Delivery} (h : Fed m (ds ++ ds') now) : ∃ mid, Fed m ds mid := by
  induction ds' using List.reverseRecOn generalizing now with
  | nil => exact ⟨now, by simpa using h⟩
  | append_singleton ds' d ih =>
    rw [← List.append_assoc] at h
    generalize hall : ds ++ ds' ++ [d] = all at h
    cases h with
    | nil => simp at hall
    | @snoc front last hfront _ _ =>
      obtain ⟨hinit, -⟩ := List.append_inj' hall rfl
      exact ih (hinit ▸ hfront)

theorem lengthReads_snoc (n : Nat) (ds : List Delivery) (d : Delivery) :
    lengthReads n (ds ++ [d]) = lengthReads n ds ++
      if d.before.header = 0 ∧ 2 ≤ (d.before.pending ++ d.chunk).length then
        [n + (received ds).length - d.before.pending.length] else [] := by
  induction ds generalizing n with
  | nil => simp [lengthReads, received]
  | cons d' ds ih =>
    simp only [List.cons_append, lengthReads, ih, List.append_assoc, received, List.map_cons,
      List.flatten_cons, List.length_append, Nat.add_assoc]

theorem Fed.lengthReads_eq (h : Fed m ds now) :
    lengthReads 0 ds = Framing.lengthReads beNat m .idle 0 (ds.map Delivery.chunk) := by
  induction h with
  | nil => rfl
  | @snoc ds d hfed _ _ ih =>
    rw [lengthReads_snoc, ih, List.map_append, List.map_singleton, Framing.lengthReads_append,
      Framing.lengthReads_one, hfed.feedAll_eq.1]
    rfl

/-! ## A connection of the gateway -/

/-- The delivery of an event to connection `c`, whose slot is `a`. -/
def gateDelivery (c : Int) (a : Nat) (r : Record Gate GateInput Act) : Option Delivery :=
  match r.input.msg with
  | .data id data =>
    if id = c then
      some ⟨(r.pre.view a).receiver, data, handedOn c r.output, (r.post.view a).receiver⟩
    else none
  | _ => none

/-- The event neither closes connection `c` nor asks for it. -/
def LeavesOpen (c : Int) (r : Record Gate GateInput Act) : Prop :=
  r.input.msg ≠ .close c ∧ r.input.msg ≠ .error c ∧ .close c ∉ r.output

variable {md5 : HandshakeMd5} {g g' : Gate} {i : GateInput} {o : List Act} {c : Int} {a : Nat}
variable {mid : List (Record Gate GateInput Act)}

theorem RefConn.message_open {v : RefConn} {routes : Int → Bool} {sid wsz : Int} {data : List Byte}
    (hopen : .close c ∉ (v.message md5 routes sid c data wsz).acts) :
    (v.message md5 routes sid c data wsz).conn.receiver =
      (Framing.feed beNat 6 v.receiver data).1 := by
  rcases htake : v.take data with ⟨receiver, _ | frame⟩
  · rw [RefConn.message_none htake]
    exact (congrArg Prod.fst htake).symm
  · rw [RefConn.message_some htake] at hopen ⊢
    simp only at hopen ⊢
    rw [close_mem_iff] at hopen
    rw [if_neg fun hclears => hopen ⟨hclears, rfl⟩]
    exact (congrArg Prod.fst htake).symm

theorem gateDelivery_of_ne {r : Record Gate GateInput Act} (h : ∀ data, r.input.msg ≠ .data c data) :
    gateDelivery c a r = none := by
  unfold gateDelivery
  split
  · next id data hmsg =>
    have hne : id ≠ c := by
      intro heq
      exact h data (by rw [hmsg, heq])
    exact if_neg hne
  · rfl

/-- The step lemma for connection `c`, which its own chunks move and nothing else does. -/
theorem GateStep.delivery (hok : GateOk g) (ha : g.hash.Holds c a)
    (h : GateStep md5 g i g' o) (hopen : LeavesOpen c ⟨g, i, o, g'⟩)
    (hfed : Fed 6 ds (g.view a).receiver) :
    g'.hash.Holds c a ∧
      Fed 6 (ds ++ (gateDelivery c a ⟨g, i, o, g'⟩).toList) (g'.view a).receiver := by
  obtain ⟨hclose, herror, hacts⟩ := hopen
  simp only at hclose herror hacts
  rcases i with ⟨msg, wsz⟩
  by_cases hdata : ∃ data, msg = .data c data
  · obtain ⟨data, rfl⟩ := hdata
    rcases h.data_inv with ⟨b, hb, hw, -, rfl⟩ | ⟨habsent, -⟩
    · obtain rfl := hok.hash.distinct hb ha
      refine ⟨hw.hash ▸ ha, ?_⟩
      simp only [gateDelivery, if_true, Option.toList_some]
      apply Fed.snoc hfed
      · simp only
        rw [RefConn.handedOn_message, if_pos rfl]
        cases hfeed : (Framing.feed beNat 6 (g.view b).receiver data).2 <;>
          simp [RefConn.take, hfeed]
      · simp only
        rw [hw.here]
        exact RefConn.message_open hacts
    · exact absurd ha (habsent a)
  · have hother : ∀ data, msg ≠ .data c data := fun data heq => hdata ⟨data, heq⟩
    obtain ⟨ha', hview⟩ := h.frame ha hother hclose herror
    rw [gateDelivery_of_ne hother, Option.toList_none, List.append_nil, hview]
    exact ⟨ha', hfed⟩

theorem filterMap_snoc {α β : Type} (f : α → Option β) (l : List α) (x : α) :
    (l ++ [x]).filterMap f = l.filterMap f ++ (f x).toList := by
  rw [List.filterMap_append]
  cases hx : f x <;> simp [hx]

/-- The run lemma: from its accept on, a connection's chunks feed one receiver. -/
theorem gate_fed {g₀ : Gate} (hok : GateOk g₀) (ha : g₀.hash.Holds c a)
    (hfresh : g₀.view a = .fresh)
    (h : Exec (dispatchSocketMessage md5) FreshAccept g₀ mid g)
    (hopen : ∀ r ∈ mid, LeavesOpen c r) :
    GateOk g ∧ g.hash.Holds c a ∧ Fed 6 (mid.filterMap (gateDelivery c a)) (g.view a).receiver := by
  induction h with
  | nil =>
    refine ⟨hok, ha, ?_⟩
    rw [hfresh]
    exact .nil
  | @snoc mid g g' i o _ hfresh hrun ih =>
    obtain ⟨hok', ha', hfed⟩ := ih fun r hr => hopen r (List.mem_append_left _ hr)
    have hstep := dispatch_step hok' hfresh hrun
    rw [filterMap_snoc]
    obtain ⟨ha'', hfed'⟩ := hstep.delivery hok' ha' (hopen _ (by simp)) hfed
    exact ⟨hstep.ok hok', ha'', hfed'⟩

/-! ## A client socket -/

def clientDelivery (r : Record Socket ClientInput ClientAct) : Option Delivery :=
  r.input.chunk.map fun data => ⟨r.pre.receiver, data, calledBack r.output, r.post.receiver⟩

theorem client_fed {ok : Socket → ClientInput → Prop} {fd : Int} (hfd : fd ≠ -1)
    {tr : List (Record Socket ClientInput ClientAct)} {s : Socket}
    (h : Exec clientStep ok (socketConnect socketNew fd) tr s)
    (hopen : ∀ r ∈ tr, ¬ Closes r.output) :
    SocketOk s ∧ s.Open ∧ Fed 2 (tr.filterMap clientDelivery) s.receiver := by
  induction h with
  | nil =>
    have hidle : (socketConnect socketNew fd).receiver = .idle :=
      Socket.receiver_eq (Queues.init Unit)
    refine ⟨socketConnect_ok fd, ⟨hfd, _, rfl⟩, ?_⟩
    rw [hidle]
    exact .nil
  | @snoc tr s s' i o _ _ hrun ih =>
    obtain ⟨hok, hs, hfed⟩ := ih fun r hr => hopen r (List.mem_append_left _ hr)
    have hlive : ¬ Closes o := hopen ⟨s, i, o, s'⟩ (by simp)
    rw [filterMap_snoc]
    cases hi : i.chunk with
    | none =>
      obtain ⟨hok', hs', hreceiver, -⟩ := clientStep_other hok hs hi hrun hlive
      have hnone : clientDelivery ⟨s, i, o, s'⟩ = none := by simp [clientDelivery, hi]
      rw [hnone, hreceiver, Option.toList_none, List.append_nil]
      exact ⟨hok', hs', hfed⟩
    | some data =>
      obtain ⟨hdispatches, hs'⟩ := clientStep_data hok hs hi hrun hlive
      have hsome : clientDelivery ⟨s, i, o, s'⟩ =
          some ⟨s.receiver, data, calledBack o, s'.receiver⟩ := by simp [clientDelivery, hi]
      rw [hsome, Option.toList_some]
      exact ⟨hdispatches.ok, hs', .snoc hfed hdispatches.calledBack (hdispatches.reader hlive).2⟩

/-! ## Either end -/

/-- `ds` are the deliveries of a connection that has not been closed since it was set up, with
minimum length `m`. At the end of its run the databuffer is `now`; on a chunk with `faults` the
next step fails: an assertion, such as that of `databuffer_read`, or a bad pointer. A read of the
client socket is no longer than what it asks for. -/
inductive Reception : Nat → List Delivery → Receiver Byte → (List Byte → Prop) → Prop where
  | gateway {md5 : HandshakeMd5} {max : Capacity} {listenId : Int}
      {front mid : List (Record Gate GateInput Act)} {r : Record Gate GateInput Act} {g : Gate}
      {l c wsz : Int} {a : Nat}
      (h : Exec (dispatchSocketMessage md5) FreshAccept (gateInit max listenId)
        (front ++ r :: mid) g)
      (haccept : r.input = ⟨.accept l c, wsz⟩) (ha : r.post.hash.Holds c a)
      (hopen : ∀ q ∈ mid, LeavesOpen c q) :
      Reception 6 (mid.filterMap (gateDelivery c a)) (g.view a).receiver
        fun chunk => ∃ wsz, dispatchSocketMessage md5 g ⟨.data c chunk, wsz⟩ = none
  | client {ok : Socket → ClientInput → Prop} {fd : Int}
      {tr : List (Record Socket ClientInput ClientAct)} {s : Socket} (hfd : fd ≠ -1)
      (h : Exec clientStep ok (socketConnect socketNew fd) tr s)
      (hopen : ∀ q ∈ tr, ¬ Closes q.output) :
      Reception 2 (tr.filterMap clientDelivery) s.receiver
        fun chunk => chunk ≠ [] ∧ chunk.length ≤ s.size ∧ ∃ sends, Gentle sends ∧
          clientStep s (.msgdispatch (.bytes chunk) sends) = none

theorem accepted_fresh {s : Gate} {l wsz : Int} (hok : GateOk s)
    (hfresh : FreshAccept s ⟨.accept l c, wsz⟩) (h : GateStep md5 s ⟨.accept l c, wsz⟩ g o)
    (ha : g.hash.Holds c a) : g.view a = .fresh := by
  rcases h.live_inv hok ha with ⟨hlive, -, -⟩ | ⟨-, hview⟩
  · exact absurd hlive.2.1 (hfresh.2 a hlive.1)
  · exact hview

theorem Reception.fed {faults : List Byte → Prop} (h : Reception m ds now faults) :
    0 < m ∧ Fed m ds now ∧ ∀ chunk, ¬ faults chunk := by
  cases h with
  | @gateway md5 max listenId front mid r g l c wsz a h haccept ha hopen =>
    obtain ⟨s, hfront, hback⟩ := h.split
    obtain ⟨-, hfresh, hrun, hmid⟩ := hback.cons_inv
    have hok := gate_invariant hfront
    rw [haccept] at hfresh hrun
    have hstep := dispatch_step hok hfresh hrun
    obtain ⟨hok', ha', hfed⟩ :=
      gate_fed (hstep.ok hok) ha (accepted_fresh hok hfresh hstep ha) hmid hopen
    refine ⟨by omega, hfed, ?_⟩
    rintro chunk ⟨wsz', hnone⟩
    obtain ⟨g', o, hsome, -⟩ := data_step md5 hok' c chunk wsz'
    simp [hsome] at hnone
  | @client ok fd tr s hfd h hopen =>
    obtain ⟨hok, hs, hfed⟩ := client_fed hfd h hopen
    refine ⟨by omega, hfed, ?_⟩
    rintro chunk ⟨hchunk, hfits, sends, hgentle, hnone⟩
    obtain ⟨s', o, hsome, -⟩ := clientStep_total hok hs hfits hchunk hgentle
    simp [hsome] at hnone

theorem quiet_reads {ok : Socket → ClientInput → Prop} {fd : Int} (hfd : fd ≠ -1)
    {tr : List (Record Socket ClientInput ClientAct)} {s : Socket}
    (h : Exec clientStep ok (socketConnect socketNew fd) tr s)
    (hreads : ∀ q ∈ tr, ∃ chunk, chunk ≠ [] ∧ q.input = .msgdispatch (.bytes chunk) []) :
    ∀ q ∈ tr, ¬ Closes q.output := by
  induction h with
  | nil => simp
  | @snoc tr s s' i o hrun _ hstep ih =>
    rw [List.forall_mem_append] at hreads ⊢
    have hopen := ih hreads.1
    obtain ⟨chunk, hchunk, hi⟩ := hreads.2 ⟨s, i, o, s'⟩ List.mem_cons_self
    obtain rfl : i = .msgdispatch (.bytes chunk) [] := hi
    obtain ⟨hok, hs, -⟩ := client_fed hfd hrun hopen
    have hfits := socketMsgdispatch_fits hs hstep
    have hgentle : Gentle ([] : List (List (List Byte × WriteResult))) := by simp [Gentle]
    obtain ⟨s₁, o₁, hstep₁, hlive⟩ := clientStep_total hok hs hfits hchunk hgentle
    obtain ⟨rfl, rfl⟩ := Prod.mk.inj (Option.some.inj (hstep.symm.trans hstep₁))
    exact ⟨hopen, by simpa using hlive⟩

/-- The chunks of a client socket, from a run that was computed. -/
theorem client_reception {fd : Int} {chunks : List (List Byte)} (hfd : fd ≠ -1)
    (hne : ∀ chunk ∈ chunks, chunk ≠ [])
    (hrun : (execute clientStep (fun _ _ => True) (socketConnect socketNew fd)
      (chunks.map fun chunk => .msgdispatch (.bytes chunk) [])).isSome = true) :
    ∃ ds now faults, Reception 2 ds now faults ∧ ds.map Delivery.chunk = chunks := by
  obtain ⟨⟨tr, s⟩, hexec⟩ := Option.isSome_iff_exists.mp hrun
  have hinputs := execute_inputs hexec
  have h := execute_exec hexec
  simp only at h hinputs
  have hopen : ∀ q ∈ tr, ¬ Closes q.output := by
    apply quiet_reads hfd h
    intro q hq
    have hmem : q.input ∈ tr.map Record.input := List.mem_map_of_mem hq
    rw [hinputs] at hmem
    obtain ⟨chunk, hchunk, hinput⟩ := List.mem_map.mp hmem
    exact ⟨chunk, hne chunk hchunk, hinput.symm⟩
  refine ⟨_, _, _, .client hfd h hopen, ?_⟩
  clear hrun hexec h hopen
  induction tr generalizing chunks with
  | nil => exact (List.map_eq_nil_iff.mp hinputs.symm).symm
  | cons q tr ih =>
    cases chunks with
    | nil => simp at hinputs
    | cons chunk chunks =>
      rw [List.map_cons, List.map_cons, List.cons.injEq] at hinputs
      rw [List.forall_mem_cons] at hne
      simp [clientDelivery, hinputs.1, ClientInput.chunk, hne.1, ih hne.2 hinputs.2]

/-- The chunks of a gateway connection, from a run that was computed. -/
theorem gateway_reception {max : Capacity} {listenId : Int} {chunks : List (List Byte)}
    (hrun : (execute (dispatchSocketMessage md5) FreshAccept (gateInit max listenId)
      (⟨.accept listenId c, 0⟩ :: chunks.map fun chunk => ⟨.data c chunk, 0⟩)).map (fun run =>
        run.1.all fun r => decide (r.post.hash.Holds c a ∧ .close c ∉ r.output)) = some true) :
    ∃ ds now faults, Reception 6 ds now faults ∧ ds.map Delivery.chunk = chunks := by
  obtain ⟨⟨tr, g⟩, hexec, hall⟩ := Option.map_eq_some_iff.mp hrun
  have hinputs := execute_inputs hexec
  have h := execute_exec hexec
  simp only [List.all_eq_true, decide_eq_true_eq] at h hinputs hall
  cases tr with
  | nil => simp at hinputs
  | cons r mid =>
    rw [List.map_cons, List.cons.injEq] at hinputs
    obtain ⟨haccept, hmid⟩ := hinputs
    have hdata : ∀ q ∈ mid, ∃ chunk, q.input = ⟨.data c chunk, 0⟩ := by
      intro q hq
      have hmem : q.input ∈ mid.map Record.input := List.mem_map_of_mem hq
      rw [hmid] at hmem
      obtain ⟨chunk, -, hchunk⟩ := List.mem_map.mp hmem
      exact ⟨chunk, hchunk.symm⟩
    have hopen : ∀ q ∈ mid, LeavesOpen c q := by
      intro q hq
      obtain ⟨chunk, hchunk⟩ := hdata q hq
      exact ⟨by simp [hchunk], by simp [hchunk], (hall q (List.mem_cons_of_mem r hq)).2⟩
    have hchunks : (mid.filterMap (gateDelivery c a)).map Delivery.chunk = chunks := by
      clear hrun hexec h haccept hall hdata hopen
      induction mid generalizing chunks with
      | nil => exact (List.map_eq_nil_iff.mp hmid.symm).symm
      | cons q mid ih =>
        cases chunks with
        | nil => simp at hmid
        | cons chunk chunks =>
          rw [List.map_cons, List.map_cons, List.cons.injEq] at hmid
          simp [gateDelivery, hmid.1, ih hmid.2]
    have hrec := @Reception.gateway _ _ _ [] mid r g listenId c 0 a h haccept
      (hall r List.mem_cons_self).1 hopen
    exact ⟨_, _, _, hrec, hchunks⟩

end NetgameFormal
