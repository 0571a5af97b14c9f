import NetgameFormal.Gate
import NetgameFormal.ClientSocket
import NetgameFormal.Runs

/-!
# Runs of the two message queues

A queue refines the list of the messages pushed and not yet popped: the
representation `Contains` is kept by every operation, and what the operations
return is read off the list.
-/

set_option autoImplicit false

namespace NetgameFormal

universe u

inductive QueueOp (α : Type u) where
  | push (message : α)
  | pop
  | length
  deriving DecidableEq

/-- What an operation returns; popping no message is the return value 1. -/
inductive QueueAct (α : Type u) where
  | popped (message : Option α)
  | length (n : Nat)
  deriving DecidableEq

variable {α : Type u}

def queueStep (q : MessageQueue α) : QueueOp α → Option (MessageQueue α × List (QueueAct α))
  | .push message => some (q.push message, [])
  | .pop => q.pop.map fun (q', message) => (q', [.popped message])
  | .length => some (q, [.length q.length])

def gateMqStep : MessageQueue GateMessage → QueueOp GateMessage →
    Option (MessageQueue GateMessage × List (QueueAct GateMessage)) := queueStep

def socketMqStep : MessageQueue SocketMessage → QueueOp SocketMessage →
    Option (MessageQueue SocketMessage × List (QueueAct SocketMessage)) := queueStep

abbrev QueueRun (α : Type u) := List (Record (MessageQueue α) (QueueOp α) (QueueAct α))

def pushedIn (tr : QueueRun α) : List α :=
  tr.filterMap fun r => match r.input with
    | .push message => some message
    | _ => none

def poppedIn (tr : QueueRun α) : List α :=
  (outputsOf tr).filterMap fun
    | .popped message => message
    | .length _ => none

/-- Pushed and not yet popped. -/
def pendingIn (tr : QueueRun α) : List α := (pushedIn tr).drop (poppedIn tr).length

/-- An exact FIFO after the history `tr`: what it has given out, and what it answers next. -/
structure FifoAt (step : MessageQueue α → QueueOp α → Option (MessageQueue α × List (QueueAct α)))
    (tr : QueueRun α) (q : MessageQueue α) : Prop where
  exact : pushedIn tr = poppedIn tr ++ pendingIn tr
  push : ∀ message, ∃ q', step q (.push message) = some (q', [])
  pop : ∃ q', step q .pop = some (q', [.popped (pendingIn tr).head?])
  length : step q .length = some (q, [.length (pendingIn tr).length])
  head_lt : q.head < q.cap
  tail_lt : q.tail < q.cap
  empty_iff : q.head = q.tail ↔ pendingIn tr = []

@[simp] theorem pushedIn_snoc (tr : QueueRun α) (r : Record (MessageQueue α) (QueueOp α) (QueueAct α)) :
    pushedIn (tr ++ [r]) = pushedIn tr ++ pushedIn [r] :=
  List.filterMap_append

@[simp] theorem poppedIn_snoc (tr : QueueRun α) (r : Record (MessageQueue α) (QueueOp α) (QueueAct α)) :
    poppedIn (tr ++ [r]) = poppedIn tr ++ poppedIn [r] := by
  simp [poppedIn, outputsOf]

/-- What one operation does to the list of pending messages `l`. -/
theorem queueStep_spec {q : MessageQueue α} {l : List α} (h : q.Contains l) (op : QueueOp α) :
    ∃ q' o l', queueStep q op = some (q', o) ∧ q'.Contains l' ∧
      l ++ pushedIn [⟨q, op, o, q'⟩] = poppedIn [⟨q, op, o, q'⟩] ++ l' := by
  cases op with
  | push message => exact ⟨_, _, l ++ [message], rfl, h.push message, rfl⟩
  | pop =>
    cases l with
    | nil =>
      refine ⟨q, [.popped none], [], ?_, h, rfl⟩
      simp only [queueStep, h.pop_nil, Option.map_some]
    | cons x l =>
      obtain ⟨q', hpop, hq'⟩ := h.pop_cons
      refine ⟨q', [.popped (some x)], l, ?_, hq', ?_⟩
      · simp only [queueStep, hpop, Option.map_some]
      · simp [pushedIn, poppedIn, outputsOf]
  | length =>
    refine ⟨q, _, l, rfl, h, ?_⟩
    simp [pushedIn, poppedIn, outputsOf]

theorem queue_run {tr : QueueRun α} {q : MessageQueue α}
    (h : Exec queueStep (fun _ _ => True) .new tr q) :
    ∃ l, q.Contains l ∧ pushedIn tr = poppedIn tr ++ l := by
  induction h with
  | nil => exact ⟨[], MessageQueue.contains_new, rfl⟩
  | @snoc tr q q' op o hrun hok hstep ih =>
    obtain ⟨l, hq, hexact⟩ := ih
    obtain ⟨q₁, o₁, l', hstep', hq', hmove⟩ := queueStep_spec hq op
    rw [hstep'] at hstep
    obtain ⟨rfl, rfl⟩ := Prod.mk.inj (Option.some.inj hstep)
    refine ⟨l', hq', ?_⟩
    rw [pushedIn_snoc, poppedIn_snoc, hexact, List.append_assoc, hmove, List.append_assoc]

theorem queueStep_fifoAt {tr : QueueRun α} {q : MessageQueue α}
    (h : Exec queueStep (fun _ _ => True) .new tr q) : FifoAt queueStep tr q := by
  obtain ⟨l, hq, hexact⟩ := queue_run h
  have hpending : pendingIn tr = l := by rw [pendingIn, hexact, List.drop_left]
  refine ⟨by rw [hpending, hexact], fun message => ⟨_, rfl⟩, ?_, ?_, hq.head_lt, hq.tail_lt, ?_⟩
  · rw [hpending]
    cases l with
    | nil => exact ⟨q, by simp only [queueStep, hq.pop_nil, Option.map_some, List.head?_nil]⟩
    | cons x l =>
      obtain ⟨q', hpop, -⟩ := hq.pop_cons
      exact ⟨q', by simp only [queueStep, hpop, Option.map_some, List.head?_cons]⟩
  · rw [hpending, queueStep, hq.length_eq]
  · rw [hpending]
    exact hq.head_eq_tail_iff

theorem queues_are_fifo {tr : QueueRun GateMessage} {q : MessageQueue GateMessage}
    (h : Exec gateMqStep (fun _ _ => True) .new tr q)
    {tr' : QueueRun SocketMessage} {q' : MessageQueue SocketMessage}
    (h' : Exec socketMqStep (fun _ _ => True) .new tr' q') :
    FifoAt gateMqStep tr q ∧ FifoAt socketMqStep tr' q' :=
  ⟨queueStep_fifoAt h, queueStep_fifoAt h'⟩

/-- Forty messages go through, and sixty-six more: these run over the end of the array and fill it. -/
def fillQueue (message : Nat → α) : List (QueueOp α) :=
  (List.range 40).map (fun k => .push (message k)) ++ List.replicate 40 .pop ++
    (List.range 66).map (fun k => .push (message (40 + k))) ++ List.replicate 66 .pop

/-- Both queues wrap around and double, and give out what they got. -/
theorem queues_are_fifo_example :
    ∃ tr q tr' q', Exec gateMqStep (fun _ _ => True) .new tr q ∧
      poppedIn tr = (List.range 106).map (fun k => .close k) ∧ q.cap = 2 * DEFAULT_QUEUE_SIZE ∧
      (∃ r ∈ tr, r.post.tail < r.post.head) ∧
      Exec socketMqStep (fun _ _ => True) .new tr' q' ∧
      poppedIn tr' = (List.range 106).map (fun k => ⟨[BitVec.ofNat 8 k]⟩) ∧
      q'.cap = 2 * DEFAULT_QUEUE_SIZE ∧ (∃ r ∈ tr', r.post.tail < r.post.head) ∧
      FifoAt gateMqStep tr q ∧ FifoAt socketMqStep tr' q' := by
  have hgate : (execute gateMqStep (fun _ _ => True) .new (fillQueue fun k => .close k)).map
      (fun run => (poppedIn run.1, run.2.cap, decide (∃ r ∈ run.1, r.post.tail < r.post.head))) =
      some ((List.range 106).map fun k => .close k, 2 * DEFAULT_QUEUE_SIZE, true) := by
    decide +kernel
  have hsocket : (execute socketMqStep (fun _ _ => True) .new
      (fillQueue fun k => ⟨[BitVec.ofNat 8 k]⟩)).map
      (fun run => (poppedIn run.1, run.2.cap, decide (∃ r ∈ run.1, r.post.tail < r.post.head))) =
      some ((List.range 106).map fun k => ⟨[BitVec.ofNat 8 k]⟩, 2 * DEFAULT_QUEUE_SIZE, true) := by
    decide +kernel
  obtain ⟨tr, q, h, hdata⟩ := exists_exec _ hgate
  obtain ⟨tr', q', h', hdata'⟩ := exists_exec _ hsocket
  simp only [Prod.mk.injEq, decide_eq_true_eq] at hdata hdata'
  obtain ⟨hpopped, hcap, hwrapped⟩ := hdata
  obtain ⟨hpopped', hcap', hwrapped'⟩ := hdata'
  obtain ⟨hfifo, hfifo'⟩ := queues_are_fifo h h'
  exact ⟨tr, q, tr', q', h, hpopped, hcap, hwrapped, h', hpopped', hcap', hwrapped', hfifo, hfifo'⟩

end NetgameFormal
