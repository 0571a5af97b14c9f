import NetgameFormal.ClientSocket
import NetgameFormal.ByteQueues

/-!
# What one operation does to a client socket

`SocketOk` is kept by every operation, also by those that close the socket. As
long as nothing closes it, sending leaves the receiving half alone, and a chunk
moves the databuffer and the callback exactly as the receiver of `Framing`.
-/

set_option autoImplicit false

namespace NetgameFormal

/-- The pending write buffers, from `head` to `tail`. -/
structure WriteList (s : Socket) (l : List Nat) : Prop where
  chain : Chain (fun a => (s.node a).next) s.head l
  tail : s.tail = l.getLast?
  fresh : ∀ a ∈ l, a < s.brk

structure SocketOk (s : Socket) : Prop where
  writes : ∃ l, WriteList s l
  header : s.readBuffer.header < 65536
  buffered : ∃ bytes, Queues s.mp (fun _ : Unit => s.readBuffer) (fun _ => bytes)
  queue : ∀ q, s.q = some q → q.Contains []

/-- Connected, and not closed by `force_close` since. -/
def Socket.Open (s : Socket) : Prop := s.fd ≠ -1 ∧ ∃ q, s.q = some q

/-- The databuffer in the terms of `Framing`. -/
def Socket.receiver (s : Socket) : Framing.Receiver Byte :=
  ⟨s.readBuffer.header, heldBytes s.mp s.readBuffer⟩

def Closes (acts : List ClientAct) : Prop := ∃ fd, .close fd ∈ acts

def calledBack (acts : List ClientAct) : List (List Byte) :=
  acts.filterMap fun
    | .callback frame => frame
    | _ => none

@[simp] theorem calledBack_append (o o' : List ClientAct) :
    calledBack (o ++ o') = calledBack o ++ calledBack o' := by
  simp [calledBack]

@[simp] theorem not_closes_nil : ¬ Closes [] := by
  simp [Closes]

@[simp] theorem closes_cons {x : ClientAct} {o : List ClientAct} :
    Closes (x :: o) ↔ (∃ fd, x = .close fd) ∨ Closes o := by
  simp [Closes, exists_or, eq_comm]

@[simp] theorem closes_append {o o' : List ClientAct} :
    Closes (o ++ o') ↔ Closes o ∨ Closes o' := by
  simp [Closes, exists_or]

theorem socketConnect_ok (fd : Int) : SocketOk (socketConnect socketNew fd) where
  writes := ⟨[], rfl, rfl, by simp⟩
  header := Nat.zero_lt_succ _
  buffered := ⟨[], Queues.init Unit⟩
  queue := by
    intro q hq
    obtain rfl := Option.some.inj hq
    exact MessageQueue.contains_new

variable {s s' s'' : Socket} {o o' : List ClientAct}

theorem Socket.receiver_eq {bytes : List Byte}
    (h : Queues s.mp (fun _ : Unit => s.readBuffer) (fun _ => bytes)) :
    s.receiver = ⟨s.readBuffer.header, bytes⟩ := by
  rw [Socket.receiver, h.heldBytes_eq ()]

theorem Queues.unit {mp : Messagepool} {db db' : Databuffer} {bytes bytes' : List Byte}
    (h : Queues mp (Function.update (fun _ : Unit => db) () db')
      (Function.update (fun _ : Unit => bytes) () bytes')) :
    Queues mp (fun _ : Unit => db') (fun _ => bytes') := by
  have hbufs : Function.update (fun _ : Unit => db) () db' = fun _ => db' := by
    funext u
    simp
  have hbytes : Function.update (fun _ : Unit => bytes) () bytes' = fun _ => bytes' := by
    funext u
    simp
  rwa [hbufs, hbytes] at h

theorem Queues.unit_reset {mp : Messagepool} {db : Databuffer} {bytes : List Byte}
    (h : Queues mp (fun _ : Unit => db) (fun _ => bytes)) :
    Queues mp (fun _ : Unit => databufferReset db) (fun _ => bytes) := by
  have hzero := h.set_header () 0
  rw [← Function.update_eq_self () (fun _ => bytes)] at hzero
  exact hzero.unit

/-! ## Sending -/

/-- What an operation does that calls back no data. -/
structure Sends (s s' : Socket) (o : List ClientAct) : Prop where
  ok : SocketOk s'
  fd : s'.fd = s.fd
  calledBack : calledBack o = []
  reader : ¬ Closes o → s'.readBuffer = s.readBuffer ∧ s'.mp = s.mp ∧ s'.q = s.q

theorem Sends.trans (h : Sends s s' o) (h' : Sends s' s'' o') : Sends s s'' (o ++ o') where
  ok := h'.ok
  fd := h'.fd.trans h.fd
  calledBack := by rw [calledBack_append, h.calledBack, h'.calledBack, List.append_nil]
  reader := by
    intro hnone
    rw [closes_append, not_or] at hnone
    obtain ⟨hbuf, hmp, hq⟩ := h.reader hnone.1
    obtain ⟨hbuf', hmp', hq'⟩ := h'.reader hnone.2
    exact ⟨hbuf'.trans hbuf, hmp'.trans hmp, hq'.trans hq⟩

theorem Sends.write (h : Sends s s' o) (fd : Int) (data : List Byte) (w : WriteResult) :
    Sends s s' (.write fd data w :: o) :=
  ⟨h.ok, h.fd, h.calledBack, fun hnone => h.reader (by simpa using hnone)⟩

theorem SocketOk.sends_nil (h : SocketOk s) : Sends s s [] :=
  ⟨h, rfl, rfl, fun _ => ⟨rfl, rfl, rfl⟩⟩

theorem freeWriteBuffers_isSome {node : Nat → WriteBuffer} {p : Option Nat} {l : List Nat}
    (h : Chain (fun a => (node a).next) p l) {n : Nat} (hn : l.length ≤ n) :
    freeWriteBuffers node n p = some () := by
  induction l generalizing p n with
  | nil =>
    subst h
    cases n <;> rfl
  | cons a l ih =>
    obtain ⟨rfl, hl⟩ := h
    cases n with
    | zero => simp at hn
    | succ n =>
      rw [freeWriteBuffers]
      exact ih hl (by simpa using hn)

theorem forceClose_spec (h : SocketOk s) :
    ∃ s', forceClose s = some (s', [.close s.fd]) ∧ SocketOk s' ∧ s'.fd = s.fd ∧ s'.q = none := by
  obtain ⟨l, hl⟩ := h.writes
  obtain ⟨bytes, hq⟩ := h.buffered
  obtain ⟨mp, hclear, -⟩ := hq.clear ()
  have hfree := freeWriteBuffers_isSome hl.chain (length_le_of_nodup_lt hl.chain.nodup hl.fresh)
  have hdelete : s.q.elim (some ()) (fun q => socketMqDelete (q.length + 1) q) = some () := by
    cases hsq : s.q with
    | none => rfl
    | some q => simp only [Option.elim_some, socketMqDelete, (h.queue q hsq).pop_nil]
  let s' : Socket := { s with
    head := none
    tail := none
    readBuffer := .zero
    mp := messagepoolFree mp
    q := none }
  have hrun : forceClose s = some (s', [.close s.fd]) := by
    simp only [forceClose, hfree, hclear, hdelete, Option.bind_eq_bind, Option.bind_some, s']
  have hempty : Queues s'.mp (fun _ : Unit => s'.readBuffer) (fun _ => []) :=
    Queues.empty Unit rfl rfl
  refine ⟨s', hrun, ⟨⟨[], rfl, rfl, by simp⟩, Nat.zero_lt_succ _, ⟨[], hempty⟩, ?_⟩, rfl, rfl⟩
  intro q hsq
  simp [s'] at hsq

theorem forceClose_sends (h : SocketOk s) :
    ∃ s', forceClose s = some (s', [.close s.fd]) ∧ Sends s s' [.close s.fd] ∧ s'.q = none := by
  obtain ⟨s', hrun, hok, hfd, hq⟩ := forceClose_spec h
  exact ⟨s', hrun, ⟨hok, hfd, rfl, by simp⟩, hq⟩

theorem appendSendbuffer_spec {l : List Nat} (h : WriteList s l) (buffer : List Byte) (n : Nat) :
    ∃ s', appendSendbuffer s buffer n = some s' ∧ WriteList s' (l ++ [s.brk]) ∧ s'.fd = s.fd ∧
      s'.readBuffer = s.readBuffer ∧ s'.mp = s.mp ∧ s'.q = s.q := by
  have hbrk : s.brk ∉ l := fun hmem => Nat.lt_irrefl _ (h.fresh _ hmem)
  have hfresh : ∀ a ∈ l ++ [s.brk], a < s.brk + 1 := by
    intro a ha
    rcases List.mem_append.mp ha with ha | ha
    · exact Nat.lt_succ_of_lt (h.fresh a ha)
    · rw [List.mem_singleton.mp ha]
      exact Nat.lt_succ_self _
  obtain ⟨hchain, htail, -⟩ := h
  unfold appendSendbuffer
  rcases List.eq_nil_or_concat l with rfl | ⟨front, t, rfl⟩
  · have hhead : s.head = none := hchain
    simp only [hhead]
    refine ⟨_, rfl, ⟨?_, rfl, hfresh⟩, rfl, rfl, rfl, rfl⟩
    simp [Chain]
  · rw [List.concat_eq_append] at hchain htail hbrk hfresh ⊢
    have htail' : s.tail = some t := by simpa using htail
    obtain ⟨a, hhead⟩ : ∃ a, s.head = some a := by
      cases hh : s.head with
      | none =>
        rw [hh] at hchain
        simpa using hchain.of_none
      | some a => exact ⟨a, rfl⟩
    have hlast : (front ++ [t]).getLast? = some t := by simp
    have hnext : (s.node t).next = none := hchain.next_last hlast
    simp only [hhead, htail', hnext, if_true]
    have hne : s.brk ≠ t := by
      intro heq
      exact hbrk (by simp [heq])
    refine ⟨_, rfl, ⟨?_, by simp, hfresh⟩, rfl, rfl, rfl, rfl⟩
    rw [← hhead]
    apply hchain.snoc hlast
    · simp
    · simp [hne]
    · intro b hb hbt
      have hbb : b ≠ s.brk := by
        intro heq
        subst heq
        exact hbrk hb
      simp [hbt, hbb]

theorem appendSendbuffer_sends (h : SocketOk s) (buffer : List Byte) (n : Nat) :
    ∃ s', appendSendbuffer s buffer n = some s' ∧ Sends s s' [] := by
  obtain ⟨l, hl⟩ := h.writes
  obtain ⟨s', hrun, hl', hfd, hbuf, hmp, hq⟩ := appendSendbuffer_spec hl buffer n
  refine ⟨s', hrun, ⟨⟨_, hl'⟩, ?_, ?_, ?_⟩, hfd, rfl, fun _ => ⟨hbuf, hmp, hq⟩⟩
  · rw [hbuf]
    exact h.header
  · rw [hbuf, hmp]
    exact h.buffered
  · rw [hq]
    exact h.queue

theorem Sends.send (h : Sends s s' o) (buffer : List Byte) (ret : Int) :
    Sends s s' (o ++ [.send buffer ret]) :=
  h.trans ⟨h.ok, rfl, rfl, fun _ => ⟨rfl, rfl, rfl⟩⟩

theorem socketSendWritten_spec (h : SocketOk s) (buffer : List Byte) (w : WriteResult) (n : Nat) :
    ∃ s' o, socketSendWritten s buffer w n = some (s', o) ∧ Sends s s' o ∧ ¬ Closes o := by
  unfold socketSendWritten
  split
  · exact ⟨_, _, rfl, (h.sends_nil.send buffer buffer.length).write s.fd buffer w, by simp⟩
  · obtain ⟨s', hrun, hsends⟩ := appendSendbuffer_sends h buffer n
    simp only [hrun, Option.bind_eq_bind, Option.bind_some]
    exact ⟨_, _, rfl, (hsends.send buffer s'.wbSize).write s.fd buffer w, by simp⟩

theorem socketSend_spec (h : SocketOk s) (buffer : List Byte) (w : WriteResult) :
    ∃ s' o, socketSend s buffer w = some (s', o) ∧ Sends s s' o ∧ (w ≠ .fatal → ¬ Closes o) := by
  have hwritten : ∀ n, ∃ s' o, socketSendWritten s buffer w n = some (s', o) ∧ Sends s s' o ∧
      (w ≠ .fatal → ¬ Closes o) := by
    intro n
    obtain ⟨s', o, hrun, hsends, hopen⟩ := socketSendWritten_spec h buffer w n
    exact ⟨s', o, hrun, hsends, fun _ => hopen⟩
  unfold socketSend
  by_cases hfd : s.fd = -1
  · rw [if_pos hfd]
    exact ⟨_, _, rfl, h.sends_nil.send buffer (-1), by simp⟩
  rw [if_neg hfd]
  cases hhead : s.head with
  | some a =>
    obtain ⟨s', hrun, hsends⟩ := appendSendbuffer_sends h buffer 0
    simp only [hrun, Option.bind_eq_bind, Option.bind_some]
    exact ⟨_, _, rfl, hsends.send buffer _, by simp⟩
  | none =>
    cases w with
    | wrote n => exact hwritten n
    | eintr => exact hwritten 0
    | eagain => exact hwritten 0
    | fatal =>
      obtain ⟨s', hrun, hsends, -⟩ := forceClose_sends h
      simp only [hrun, Option.bind_eq_bind, Option.bind_some]
      exact ⟨_, _, rfl, (hsends.send buffer (-1)).write s.fd buffer .fatal, by simp⟩

theorem sendAll_spec (h : SocketOk s) (sends : List (List Byte × WriteResult)) :
    ∃ s' o, sendAll s sends = some (s', o) ∧ Sends s s' o ∧
      ((∀ p ∈ sends, p.2 ≠ .fatal) → ¬ Closes o) := by
  induction sends generalizing s with
  | nil => exact ⟨s, [], rfl, h.sends_nil, by simp⟩
  | cons p sends ih =>
    obtain ⟨buffer, w⟩ := p
    obtain ⟨s₁, o₁, hrun₁, hsends₁, hopen₁⟩ := socketSend_spec h buffer w
    obtain ⟨s₂, o₂, hrun₂, hsends₂, hopen₂⟩ := ih hsends₁.ok
    refine ⟨s₂, o₁ ++ o₂, ?_, hsends₁.trans hsends₂, ?_⟩
    · simp only [sendAll, hrun₁, hrun₂, Option.bind_eq_bind, Option.bind_some]
    · intro hgentle
      rw [closes_append, not_or]
      obtain ⟨hw, hrest⟩ := List.forall_mem_cons.mp hgentle
      exact ⟨hopen₁ hw, hopen₂ hrest⟩

theorem remainbufferLoop_empty (hhead : s.head = none) (ws : List WriteResult) :
    socketSendRemainbufferLoop ws s = some ({ s with tail := none }, 0, []) := by
  unfold socketSendRemainbufferLoop
  rw [hhead]

theorem SocketOk.sends_writes (h : SocketOk s) {l : List Nat} (hl : WriteList s' l)
    (hfd : s'.fd = s.fd) (hbuf : s'.readBuffer = s.readBuffer) (hmp : s'.mp = s.mp)
    (hq : s'.q = s.q) : Sends s s' [] where
  ok := by
    refine ⟨⟨l, hl⟩, ?_, ?_, ?_⟩
    · rw [hbuf]
      exact h.header
    · rw [hbuf, hmp]
      exact h.buffered
    · rw [hq]
      exact h.queue
  fd := hfd
  calledBack := rfl
  reader := fun _ => ⟨hbuf, hmp, hq⟩

/-- Taking the first write buffer off the list; `tail` is stale once the list is empty. -/
theorem remainbufferLoop_written (h : SocketOk s) {tmp : Nat} {l : List Nat}
    (hl : WriteList s (tmp :: l)) {ws : List WriteResult} {s₁ : Socket}
    (hhead : s₁.head = (s.node tmp).next) (htail : s₁.tail = s.tail) (hnode : s₁.node = s.node)
    (hbrk : s₁.brk = s.brk) (hfd : s₁.fd = s.fd) (hbuf : s₁.readBuffer = s.readBuffer)
    (hmp : s₁.mp = s.mp) (hq : s₁.q = s.q)
    (ih : ∀ {s : Socket}, SocketOk s →
      ∃ s' ret o, socketSendRemainbufferLoop ws s = some (s', ret, o) ∧ Sends s s' o ∧
        (.fatal ∉ ws → ¬ Closes o)) :
    ∃ s' ret o, socketSendRemainbufferLoop ws s₁ = some (s', ret, o) ∧ Sends s s' o ∧
      (.fatal ∉ ws → ¬ Closes o) := by
  obtain ⟨⟨-, hchain⟩, hlast, hfresh⟩ := hl
  cases l with
  | nil =>
    have hnone : s₁.head = none := hhead.trans hchain
    refine ⟨_, _, _, remainbufferLoop_empty hnone ws, ?_, by simp⟩
    have hempty : WriteList { s₁ with tail := none } [] := ⟨hnone, rfl, by simp⟩
    exact h.sends_writes hempty hfd hbuf hmp hq
  | cons a l =>
    have hl₁ : WriteList s₁ (a :: l) := by
      refine ⟨?_, ?_, ?_⟩
      · rw [hhead, hnode]
        exact hchain
      · rw [htail, hlast, List.getLast?_cons_cons]
      · rw [hbrk]
        exact fun b hb => hfresh b (List.mem_cons_of_mem tmp hb)
    have hsends₁ := h.sends_writes hl₁ hfd hbuf hmp hq
    obtain ⟨s', ret, o, hrun, hsends, hopen⟩ := ih hsends₁.ok
    exact ⟨s', ret, o, hrun, hsends₁.trans hsends, hopen⟩

theorem remainbufferLoop_spec (h : SocketOk s) (ws : List WriteResult) :
    ∃ s' ret o, socketSendRemainbufferLoop ws s = some (s', ret, o) ∧ Sends s s' o ∧
      (.fatal ∉ ws → ¬ Closes o) := by
  induction ws generalizing s with
  | nil =>
    cases hhead : s.head with
    | none =>
      refine ⟨_, _, _, remainbufferLoop_empty hhead [], ?_, by simp⟩
      exact h.sends_writes (l := []) ⟨hhead, rfl, by simp⟩ rfl rfl rfl rfl
    | some tmp =>
      unfold socketSendRemainbufferLoop
      rw [hhead]
      exact ⟨_, _, _, rfl, h.sends_nil.write s.fd _ .eagain, by simp⟩
  | cons w ws ih =>
    cases hhead : s.head with
    | none =>
      refine ⟨_, _, _, remainbufferLoop_empty hhead _, ?_, by simp⟩
      exact h.sends_writes (l := []) ⟨hhead, rfl, by simp⟩ rfl rfl rfl rfl
    | some tmp =>
      unfold socketSendRemainbufferLoop
      rw [hhead]
      cases w with
      | eintr =>
        obtain ⟨s', ret, o, hrun, hsends, hopen⟩ := ih h
        simp only [hrun, Option.bind_eq_bind, Option.bind_some]
        exact ⟨_, _, _, rfl, hsends.write s.fd _ .eintr, by simpa using hopen⟩
      | eagain => exact ⟨_, _, _, rfl, h.sends_nil.write s.fd _ .eagain, by simp⟩
      | fatal =>
        obtain ⟨s', hrun, hsends, -⟩ := forceClose_sends h
        simp only [hrun, Option.bind_eq_bind, Option.bind_some]
        exact ⟨_, _, _, rfl, hsends.write s.fd _ .fatal, by simp⟩
      | wrote sz =>
        obtain ⟨l, hl⟩ := h.writes
        obtain ⟨l', rfl, -⟩ := (hhead ▸ hl.chain).of_some
        simp only
        split
        · refine ⟨_, _, _, rfl, Sends.write ?_ s.fd _ (.wrote sz), by simp⟩
          refine h.sends_writes (l := tmp :: l') ⟨?_, hl.tail, hl.fresh⟩ rfl rfl rfl rfl
          have hchain := hl.chain
          rw [hhead] at hchain
          apply hchain.congr
          intro a _
          by_cases ha : a = tmp
          · simp [ha]
          · simp [ha]
        · let s₁ : Socket := { s with wbSize := s.wbSize - sz, head := (s.node tmp).next }
          have hhead₁ : s₁.head = (s.node tmp).next := rfl
          obtain ⟨s', ret, o, hrun, hsends, hopen⟩ :=
            remainbufferLoop_written h hl hhead₁ rfl rfl rfl rfl rfl rfl rfl ih
          simp only [s₁] at hrun
          simp only [hrun, Option.bind_eq_bind, Option.bind_some]
          exact ⟨_, _, _, rfl, hsends.write s.fd _ (.wrote sz), by simpa using hopen⟩

theorem socketSendRemainbuffer_spec (h : SocketOk s) (ws : List WriteResult) :
    ∃ s' ret o, socketSendRemainbuffer s ws = some (s', ret, o) ∧ Sends s s' o := by
  unfold socketSendRemainbuffer
  split
  · exact ⟨_, _, _, rfl, h.sends_nil⟩
  · obtain ⟨s', ret, o, hrun, hsends, -⟩ := remainbufferLoop_spec h ws
    exact ⟨s', ret, o, hrun, hsends⟩

/-! ## Receiving -/

theorem callback_spec (h : SocketOk s) (frame : Option (List Byte))
    (sends : List (List Byte × WriteResult)) :
    ∃ s' o, callback s frame sends = some (s', .callback frame :: o) ∧ Sends s s' o ∧
      ((∀ p ∈ sends, p.2 ≠ .fatal) → ¬ Closes o) := by
  obtain ⟨s', o, hrun, hsends, hopen⟩ := sendAll_spec h sends
  refine ⟨s', o, ?_, hsends, hopen⟩
  simp only [callback, hrun, Option.bind_eq_bind, Option.bind_some]

theorem SocketOk.set_reader (h : SocketOk s) {db : Databuffer} {mp : Messagepool}
    {bytes : List Byte} (hheader : db.header < 65536)
    (hq : Queues mp (fun _ : Unit => db) (fun _ => bytes)) :
    SocketOk { s with readBuffer := db, mp := mp } := by
  obtain ⟨l, hchain, htail, hfresh⟩ := h.writes
  exact ⟨⟨l, hchain, htail, hfresh⟩, hheader, ⟨bytes, hq⟩, h.queue⟩

/-- What one message of the queue does: one chunk for the receiver, and the callback for the
frame it completes. -/
structure Dispatches (s s' : Socket) (data : List Byte) (o : List ClientAct) : Prop where
  ok : SocketOk s'
  fd : s'.fd = s.fd
  calledBack : calledBack o = (Framing.feed beNat 2 s.receiver data).2.toList.map rebuiltFrame
  reader : ¬ Closes o →
    (s.Open → s'.Open) ∧ s'.receiver = (Framing.feed beNat 2 s.receiver data).1

/-- A frame that is complete in the databuffer `db`: read, passed to the callback, and the header
reset. -/
theorem readCallback_spec (h : SocketOk s) {db : Databuffer} {mp : Messagepool} {held : List Byte}
    (hheader : db.header < 65536) (hq : Queues mp (fun _ : Unit => db) (fun _ => held))
    (hpos : 0 < db.header) (hle : db.header ≤ held.length)
    (sends : List (List Byte × WriteResult)) :
    ∃ db' mp' s' o, databufferRead db mp db.header = some (db', mp', held.take db.header) ∧
      callback { s with readBuffer := db', mp := mp' } (some (rebuiltFrame (held.take db.header)))
        sends = some (s', .callback (some (rebuiltFrame (held.take db.header))) :: o) ∧
      SocketOk { s' with readBuffer := databufferReset s'.readBuffer } ∧ s'.fd = s.fd ∧
      calledBack o = [] ∧
      (¬ Closes o → (s.Open → s'.Open) ∧
        Socket.receiver { s' with readBuffer := databufferReset s'.readBuffer } =
          ⟨0, held.drop db.header⟩) ∧
      ((∀ p ∈ sends, p.2 ≠ .fatal) → ¬ Closes o) := by
  obtain ⟨db', mp', hread, hrest, hheader'⟩ := hq.read (i := ()) hpos hle
  have hrest := hrest.unit
  have hok : SocketOk { s with readBuffer := db', mp := mp' } :=
    h.set_reader (by rw [hheader']; exact hheader) hrest
  obtain ⟨s', o, hcall, hsends, hopen⟩ :=
    callback_spec hok (some (rebuiltFrame (held.take db.header))) sends
  obtain ⟨bytes, hbuffered⟩ := hsends.ok.buffered
  refine ⟨db', mp', s', o, hread, hcall,
    hsends.ok.set_reader (Nat.zero_lt_succ _) hbuffered.unit_reset, hsends.fd, hsends.calledBack,
    fun hnone => ?_, hopen⟩
  obtain ⟨hbuf, hmp, hqueue⟩ := hsends.reader hnone
  refine ⟨?_, ?_⟩
  · intro h'
    obtain ⟨hfd, q, hsq⟩ := h'
    exact ⟨hsends.fd ▸ hfd, q, hqueue.trans hsq⟩
  · simp only [Socket.receiver, databufferReset, hbuf, hmp]
    exact congrArg _ (hrest.unit_reset.heldBytes_eq ())

theorem dispatchOne_spec (h : SocketOk s) (msg : SocketMessage)
    (sends : List (List Byte × WriteResult)) :
    ∃ s' o, dispatchOne s msg sends = some (s', o) ∧ Dispatches s s' msg.data o ∧
      ((∀ p ∈ sends, p.2 ≠ .fatal) → ¬ Closes o) := by
  obtain ⟨bytes, hq⟩ := h.buffered
  obtain ⟨db₁, mp₁, hpush, hq₁, hheader₁⟩ := hq.push () msg.data
  have hq₁ := hq₁.unit
  obtain ⟨db, mp, ret, held, hread, hq₂, hdb, hfeed⟩ :=
    hq₁.readheader () (by rw [hheader₁]; exact h.header)
  have hq₂ := hq₂.unit
  rw [hheader₁] at hfeed
  have hreceiver := Socket.receiver_eq hq
  simp only [dispatchOne, hpush, Option.bind_eq_bind, Option.bind_some, hread]
  rcases hfeed 2 bytes msg.data rfl with ⟨hret, hwait⟩ | ⟨hpos, hret, hle, hsettle⟩
  · rw [if_neg (Int.not_lt.mpr hret)]
    refine ⟨_, _, rfl, ⟨h.set_reader hdb hq₂, rfl, ?_, fun _ => ⟨id, ?_⟩⟩, by simp⟩
    · rw [hreceiver, hwait]
      rfl
    · rw [hreceiver, hwait]
      exact Socket.receiver_eq hq₂
  rw [hret, if_pos (by omega), if_neg (by omega)]
  by_cases hshort : db.header < 2
  · have hdrop : Framing.feed beNat 2 s.receiver msg.data = (⟨0, held⟩, none) := by
      rw [hreceiver, hsettle]
      exact Framing.settle_short hle hshort
    have hreset := hq₂.unit_reset
    rw [if_neg (by omega)]
    refine ⟨_, _, rfl, ⟨h.set_reader (Nat.zero_lt_succ _) hreset, rfl, ?_, fun _ => ⟨id, ?_⟩⟩,
      by simp⟩
    · rw [hdrop]
      rfl
    · rw [hdrop]
      exact Socket.receiver_eq hreset
  · have hframe : Framing.feed beNat 2 s.receiver msg.data =
        (⟨0, held.drop db.header⟩, some (held.take db.header)) := by
      rw [hreceiver, hsettle]
      exact Framing.settle_complete hpos hle (Nat.not_lt.mp hshort)
    obtain ⟨db', mp', s', o, hpayload, hcall, hok, hfd, hquiet, hreader, hopen⟩ :=
      readCallback_spec h hdb hq₂ hpos hle sends
    have hpayload' : databufferRead db mp (db.header : Int).toNat =
        some (db', mp', held.take db.header) := hpayload
    rw [if_pos (by omega)]
    simp only [hpayload', Option.bind_some, hcall]
    refine ⟨_, _, rfl, ⟨hok, hfd, ?_, fun hnone => ?_⟩, by simpa using hopen⟩
    · rw [hframe]
      simp only [calledBack, List.filterMap_cons] at hquiet ⊢
      rw [hquiet]
      rfl
    · rw [closes_cons, not_or] at hnone
      rw [hframe]
      exact hreader hnone.2

theorem popLoop_empty (h : SocketOk s) (hq : ∃ q, s.q = some q) (n : Nat)
    (sends : List (List (List Byte × WriteResult))) : popLoop (n + 1) s sends = some (s, []) := by
  obtain ⟨q, hq⟩ := hq
  simp only [popLoop, hq, (h.queue q hq).pop_nil]

/-- No write of a callback fails for good. -/
def Gentle (sends : List (List (List Byte × WriteResult))) : Prop :=
  ∀ l ∈ sends, ∀ p ∈ l, p.2 ≠ .fatal

theorem Gentle.head {sends : List (List (List Byte × WriteResult))} (h : Gentle sends) :
    ∀ p ∈ sends.headD [], p.2 ≠ .fatal := by
  cases sends with
  | nil => simp
  | cons l sends => exact h l List.mem_cons_self

theorem recvMsg_bytes {data : List Byte} (hfd : s.fd ≠ -1) (hfits : data.length ≤ s.size)
    (hdata : data ≠ []) :
    recvMsg s (.bytes data) = some ({ s with size := nextSize s.size data.length },
      .message ⟨data⟩, [.read s.fd (.bytes data)]) := by
  have hlen : ¬ data.length = 0 := by simpa using hdata
  simp only [recvMsg, hfd, if_false, Nat.not_lt.mpr hfits, hlen]

/-- A chunk goes through the queue, which is empty again when the body of the loop starts. -/
theorem socketMsgdispatch_bytes (h : SocketOk s) (hopen : s.Open) {data : List Byte}
    (hfits : data.length ≤ s.size) (hdata : data ≠ [])
    (sends : List (List (List Byte × WriteResult))) :
    ∃ n s₀ s₁ o₁, (s₀.fd = s.fd ∧ s₀.head = s.head ∧ ∃ q, s₀.q = some q) ∧
      dispatchOne s₀ ⟨data⟩ (sends.headD []) = some (s₁, o₁) ∧
      Dispatches s s₁ data o₁ ∧ (Gentle sends → ¬ Closes o₁) ∧
      socketMsgdispatch s (.bytes data) sends = (popLoop (n + 1) s₁ sends.tail).map (fun p =>
        (p.1, .read s.fd (.bytes data) :: (o₁ ++ p.2))) ∧
      socketMsgdispatchActs s (.bytes data) sends =
        .read s.fd (.bytes data) :: (o₁ ++ popLoopActs (n + 1) s₁ sends.tail) := by
  obtain ⟨hfd, q, hq⟩ := hopen
  have hrecv := recvMsg_bytes hfd hfits hdata
  obtain ⟨q', hpop, hempty⟩ := ((h.queue q hq).push ⟨data⟩).pop_cons
  let s₀ : Socket := { s with size := nextSize s.size data.length, q := some q' }
  have hok : SocketOk s₀ := by
    obtain ⟨l, hchain, htail, hfresh⟩ := h.writes
    refine ⟨⟨l, hchain, htail, hfresh⟩, h.header, h.buffered, ?_⟩
    intro q'' hq''
    obtain rfl := Option.some.inj hq''
    exact hempty
  obtain ⟨s₁, o₁, hrun, hdispatches, hgentle⟩ := dispatchOne_spec hok ⟨data⟩ (sends.headD [])
  have hstep : dispatchOne s₀ ⟨data⟩ (sends.headD []) = some (s₁, o₁) := hrun
  refine ⟨q.length, s₀, s₁, o₁, ⟨rfl, rfl, q', rfl⟩, hstep, ?_, fun hg => hgentle hg.head, ?_, ?_⟩
  · obtain ⟨hok₁, hfd₁, hcalled, hreader⟩ := hdispatches
    refine ⟨hok₁, hfd₁, hcalled, fun hnone => ?_⟩
    obtain ⟨hopen₁, hreceiver⟩ := hreader hnone
    exact ⟨fun _ => hopen₁ ⟨hfd, q', rfl⟩, hreceiver⟩
  · simp only [socketMsgdispatch, hq, hfd, if_false, hrecv, Option.bind_eq_bind, Option.bind_some]
    rw [popLoop]
    simp only [hpop, Option.bind_eq_bind]
    simp only [s₀] at hstep
    rw [hstep, Option.bind_some]
    cases popLoop (q.length + 1) s₁ sends.tail <;> simp
  · simp only [socketMsgdispatchActs, hq, hfd, if_false, hrecv]
    rw [popLoopActs]
    simp only [hpop]
    simp only [s₀] at hstep
    rw [hstep, List.singleton_append]

theorem popLoopActs_eq {n : Nat} {sends : List (List (List Byte × WriteResult))}
    (h : popLoop n s sends = some (s', o)) : popLoopActs n s sends = o := by
  induction n generalizing s sends o with
  | zero => simp [popLoop] at h
  | succ n ih =>
    rw [popLoop] at h
    rw [popLoopActs]
    cases hq : s.q with
    | none => simp [hq] at h
    | some q =>
      simp only [hq] at h ⊢
      rcases hpop : q.pop with _ | ⟨q', _ | msg⟩
      · simp [hpop] at h
      · simp only [hpop, Option.some.injEq, Prod.mk.injEq] at h ⊢
        exact h.2
      · simp only [hpop] at h ⊢
        obtain ⟨⟨s₁, o₁⟩, hone, hrest⟩ := Option.bind_eq_some_iff.mp h
        obtain ⟨⟨s₂, o₂⟩, hloop, hout⟩ := Option.bind_eq_some_iff.mp hrest
        obtain ⟨rfl, rfl⟩ := Prod.mk.inj (Option.some.inj hout)
        simp only [hone, ih hloop]

/-- A call that returns has got to its end. -/
theorem socketMsgdispatchActs_eq {r : ReadResult} {sends : List (List (List Byte × WriteResult))}
    (h : socketMsgdispatch s r sends = some (s', o)) : socketMsgdispatchActs s r sends = o := by
  rw [socketMsgdispatch] at h
  rw [socketMsgdispatchActs]
  cases hq : s.q with
  | none =>
    simp only [hq, Option.some.injEq, Prod.mk.injEq] at h ⊢
    exact h.2
  | some q =>
    simp only [hq] at h ⊢
    by_cases hfd : s.fd = -1
    · simp only [hfd, if_true, Option.some.injEq, Prod.mk.injEq] at h ⊢
      exact h.2
    · simp only [hfd, if_false] at h ⊢
      obtain ⟨⟨s₁, ret, acts⟩, hrecv, hrest⟩ := Option.bind_eq_some_iff.mp h
      cases ret with
      | message sm =>
        obtain ⟨⟨s₂, acts'⟩, hloop, hout⟩ := Option.bind_eq_some_iff.mp hrest
        obtain ⟨rfl, rfl⟩ := Prod.mk.inj (Option.some.inj hout)
        simp only [hrecv, popLoopActs_eq hloop]
      | socketClose =>
        obtain ⟨⟨s₂, acts'⟩, hcall, hout⟩ := Option.bind_eq_some_iff.mp hrest
        obtain ⟨rfl, rfl⟩ := Prod.mk.inj (Option.some.inj hout)
        simp only [hrecv, hcall, Option.elim_some]
      | again =>
        obtain ⟨⟨s₂, acts'⟩, hloop, hout⟩ := Option.bind_eq_some_iff.mp hrest
        obtain ⟨rfl, rfl⟩ := Prod.mk.inj (Option.some.inj hout)
        simp only [hrecv, popLoopActs_eq hloop]

/-- The actions listed up to a crash are those of the step, where there is no crash. -/
theorem clientActs_eq {i : ClientInput} (h : clientStep s i = some (s', o)) :
    clientActs s i = o := by
  cases i with
  | send buffer w =>
    have hsend : socketSend s buffer w = some (s', o) := h
    rw [clientActs, hsend, Option.elim_some]
  | sendRemainbuffer ws =>
    obtain ⟨⟨s₁, ret, o₁⟩, hflush, hout⟩ := Option.map_eq_some_iff.mp h
    obtain ⟨rfl, rfl⟩ := Prod.mk.inj hout
    rw [clientActs, hflush, Option.elim_some]
  | msgdispatch r sends => exact socketMsgdispatchActs_eq h

/-- A read that answers more than it was asked for is none. -/
theorem socketMsgdispatch_fits (hopen : s.Open) {r : ReadResult}
    {sends : List (List (List Byte × WriteResult))}
    (h : socketMsgdispatch s r sends = some (s', o)) : r.length ≤ s.size := by
  obtain ⟨hfd, q, hq⟩ := hopen
  by_contra hlong
  have hrecv : recvMsg s r = none := by
    cases r with
    | bytes data =>
      have hlt : s.size < data.length := Nat.not_le.mp hlong
      simp only [recvMsg, hfd, hlt, if_false, if_true]
    | eintr => exact absurd (Nat.zero_le _) hlong
    | eagain => exact absurd (Nat.zero_le _) hlong
    | fatal => exact absurd (Nat.zero_le _) hlong
  simp [socketMsgdispatch, hq, hfd, hrecv] at h

/-! ## Steps of a socket that stays open -/

def ClientInput.chunk : ClientInput → Option (List Byte)
  | .send _ _ => none
  | .sendRemainbuffer _ => none
  | .msgdispatch (.bytes data) _ => if data = [] then none else some data
  | .msgdispatch .eintr _ => none
  | .msgdispatch .eagain _ => none
  | .msgdispatch .fatal _ => none

theorem ClientInput.chunk_eq_some {i : ClientInput} {data : List Byte} :
    i.chunk = some data ↔ data ≠ [] ∧ ∃ sends, i = .msgdispatch (.bytes data) sends := by
  constructor
  · intro h
    match i, h with
    | .msgdispatch (.bytes data') sends, h =>
      rw [ClientInput.chunk, Option.ite_none_left_eq_some, Option.some.injEq] at h
      obtain ⟨hne, rfl⟩ := h
      exact ⟨hne, sends, rfl⟩
  · rintro ⟨hne, sends, rfl⟩
    rw [ClientInput.chunk, if_neg hne]

theorem clientStep_data (h : SocketOk s) (hopen : s.Open) {i : ClientInput} {data : List Byte}
    (hi : i.chunk = some data) (hrun : clientStep s i = some (s', o)) (hlive : ¬ Closes o) :
    Dispatches s s' data o ∧ s'.Open := by
  obtain ⟨hdata, sends, rfl⟩ := ClientInput.chunk_eq_some.mp hi
  have hfits := socketMsgdispatch_fits hopen hrun
  obtain ⟨n, -, s₁, o₁, -, -, hdispatches, -, hstep, -⟩ :=
    socketMsgdispatch_bytes h hopen hfits hdata sends
  rw [clientStep, hstep] at hrun
  obtain ⟨⟨s₂, o₂⟩, hloop, heq⟩ := Option.map_eq_some_iff.mp hrun
  obtain ⟨rfl, rfl⟩ := Prod.mk.inj heq
  simp only [closes_cons, closes_append, not_or] at hlive
  obtain ⟨hopen₁, hreceiver⟩ := hdispatches.reader hlive.2.1
  rw [popLoop_empty hdispatches.ok (hopen₁ hopen).2] at hloop
  obtain ⟨rfl, rfl⟩ := Prod.mk.inj (Option.some.inj hloop)
  refine ⟨⟨hdispatches.ok, hdispatches.fd, ?_, fun _ => ⟨hopen₁, hreceiver⟩⟩, hopen₁ hopen⟩
  rw [List.append_nil, ← hdispatches.calledBack]
  rfl

/-- Nothing but a fatal write of its callback keeps a chunk from being dispatched. -/
theorem clientStep_total (h : SocketOk s) (hopen : s.Open) {data : List Byte}
    (hfits : data.length ≤ s.size) (hdata : data ≠ [])
    {sends : List (List (List Byte × WriteResult))} (hgentle : Gentle sends) :
    ∃ s' o, clientStep s (.msgdispatch (.bytes data) sends) = some (s', o) ∧ ¬ Closes o := by
  obtain ⟨n, -, s₁, o₁, -, -, hdispatches, hquiet, hstep, -⟩ :=
    socketMsgdispatch_bytes h hopen hfits hdata sends
  obtain ⟨hopen₁, -⟩ := hdispatches.reader (hquiet hgentle)
  rw [popLoop_empty hdispatches.ok (hopen₁ hopen).2] at hstep
  exact ⟨s₁, _, hstep, by simpa using hquiet hgentle⟩

theorem Sends.idle (h : Sends s s' o) (hopen : s.Open) (hlive : ¬ Closes o) :
    SocketOk s' ∧ s'.Open ∧ s'.receiver = s.receiver ∧ NetgameFormal.calledBack o = [] := by
  obtain ⟨hbuf, hmp, hq⟩ := h.reader hlive
  obtain ⟨hfd, q, hsq⟩ := hopen
  refine ⟨h.ok, ⟨h.fd ▸ hfd, q, hq.trans hsq⟩, ?_, h.calledBack⟩
  rw [Socket.receiver, hbuf, hmp, Socket.receiver]

theorem clientStep_other (h : SocketOk s) (hopen : s.Open) {i : ClientInput}
    (hi : i.chunk = none) (hrun : clientStep s i = some (s', o)) (hlive : ¬ Closes o) :
    SocketOk s' ∧ s'.Open ∧ s'.receiver = s.receiver ∧ calledBack o = [] := by
  cases i with
  | send buffer w =>
    obtain ⟨s₁, o₁, hsend, hsends, -⟩ := socketSend_spec h buffer w
    rw [clientStep, hsend] at hrun
    obtain ⟨rfl, rfl⟩ := Prod.mk.inj (Option.some.inj hrun)
    exact hsends.idle hopen hlive
  | sendRemainbuffer ws =>
    obtain ⟨s₁, ret, o₁, hsend, hsends⟩ := socketSendRemainbuffer_spec h ws
    rw [clientStep, hsend] at hrun
    obtain ⟨rfl, rfl⟩ := Prod.mk.inj (Option.some.inj hrun)
    exact hsends.idle hopen hlive
  | msgdispatch r sends =>
    have hquiet : ∀ n, popLoop (n + 1) s sends = some (s, []) :=
      fun n => popLoop_empty h hopen.2 n sends
    obtain ⟨hfd, q, hq⟩ := hopen
    obtain ⟨s₁, hclose, hsends₁, -⟩ := forceClose_sends h
    obtain ⟨s₂, o₂, hcall, -⟩ := callback_spec hsends₁.ok none (sends.headD [])
    have hidle : ∀ r', socketMsgdispatch s r' sends = some (s, [.read s.fd r']) → r = r' →
        SocketOk s' ∧ s'.Open ∧ s'.receiver = s.receiver ∧ calledBack o = [] := by
      rintro r' hstep rfl
      obtain ⟨rfl, rfl⟩ := Prod.mk.inj (Option.some.inj (hrun.symm.trans hstep))
      exact ⟨h, ⟨hfd, q, hq⟩, rfl, rfl⟩
    have hdead : ∀ r' s₃ o₃, socketMsgdispatch s r' sends =
        some (s₃, .read s.fd r' :: .close s.fd :: o₃) → r = r' → False := by
      rintro r' s₃ o₃ hstep rfl
      obtain ⟨rfl, rfl⟩ := Prod.mk.inj (Option.some.inj (hrun.symm.trans hstep))
      exact hlive (by simp)
    cases r with
    | bytes data =>
      have hnil : data = [] := by
        by_contra hdata
        simp [ClientInput.chunk, hdata] at hi
      subst hnil
      refine (hdead (.bytes []) { s₂ with fd := -1 } (.callback none :: o₂) ?_ rfl).elim
      simp [socketMsgdispatch, hq, hfd, recvMsg, hclose, hcall, -List.headD_eq_head?_getD]
    | eintr =>
      refine hidle .eintr ?_ rfl
      simp [socketMsgdispatch, hq, hfd, recvMsg, hquiet]
    | eagain =>
      refine hidle .eagain ?_ rfl
      simp [socketMsgdispatch, hq, hfd, recvMsg, hquiet]
    | fatal =>
      refine (hdead .fatal { s₂ with fd := -1 } (.callback none :: o₂) ?_ rfl).elim
      simp [socketMsgdispatch, hq, hfd, recvMsg, hclose, hcall, -List.headD_eq_head?_getD]

end NetgameFormal
