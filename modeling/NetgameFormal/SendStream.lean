import NetgameFormal.ClientSteps
import NetgameFormal.Runs

/-!
# The bytes a client socket writes

A run of sends is seen as one stream: what the kernel has accepted, followed by
what the write buffers still hold. Every write moves bytes from the second part
to the first, every send adds its buffer at the end.
-/

set_option autoImplicit false

namespace NetgameFormal

/-- The nodes of the write buffer list, followed from `head`. -/
def Socket.writeBuffers (s : Socket) : List Nat :=
  walk (fun a => (s.node a).next) s.brk s.head

def Socket.pendingBytes (s : Socket) : List Byte :=
  s.writeBuffers.flatMap fun a => (s.node a).bytes

/-- What a `write` that does not fail was offered, and how many of these bytes it took. -/
def ClientAct.written : ClientAct → Option (List Byte × Nat)
  | .write _ data (.wrote n) => some (data, n)
  | _ => none

/-- The bytes the kernel takes in the course of some actions. -/
def acceptedIn (acts : List ClientAct) : List Byte :=
  (acts.filterMap ClientAct.written).flatMap fun p => p.1.take p.2

@[simp] theorem acceptedIn_append (o o' : List ClientAct) :
    acceptedIn (o ++ o') = acceptedIn o ++ acceptedIn o' := by
  simp [acceptedIn]

@[simp] theorem acceptedIn_wrote (fd : Int) (data : List Byte) (n : Nat) :
    acceptedIn [.write fd data (.wrote n)] = data.take n := by
  simp [acceptedIn, ClientAct.written]

@[simp] theorem acceptedIn_send (buffer : List Byte) (ret : Int) :
    acceptedIn [.send buffer ret] = [] := rfl

/-- What a step gives to `socket_send`; in a dispatch these are the sends of its callback. -/
def sentBy (r : Record Socket ClientInput ClientAct) : List Byte :=
  match r.input with
  | .send buffer _ => buffer
  | .sendRemainbuffer _ => []
  | .msgdispatch _ sends =>
    if calledBack r.output = [] then [] else (sends.headD []).flatMap Prod.fst

def sentIn (tr : List (Record Socket ClientInput ClientAct)) : List Byte := tr.flatMap sentBy

@[simp] theorem sentIn_snoc (tr : List (Record Socket ClientInput ClientAct))
    (r : Record Socket ClientInput ClientAct) : sentIn (tr ++ [r]) = sentIn tr ++ sentBy r := by
  simp [sentIn]

/-- No `write` takes more bytes than it is offered. -/
def WithinRequest (acts : List ClientAct) : Prop :=
  ∀ p ∈ acts.filterMap ClientAct.written, p.2 ≤ p.1.length

instance (acts : List ClientAct) : Decidable (WithinRequest acts) :=
  inferInstanceAs (Decidable (∀ p ∈ acts.filterMap ClientAct.written, p.2 ≤ p.1.length))

/-- A call of `socket_send` or `socket_send_remainbuffer` none of whose writes fails for good. -/
def ClientInput.Streams : ClientInput → Prop
  | .send _ w => w ≠ .fatal
  | .sendRemainbuffer ws => .fatal ∉ ws
  | .msgdispatch _ _ => False

instance (i : ClientInput) : Decidable i.Streams :=
  match i with
  | .send _ w => inferInstanceAs (Decidable (w ≠ .fatal))
  | .sendRemainbuffer ws => inferInstanceAs (Decidable (.fatal ∉ ws))
  | .msgdispatch _ _ => isFalse id

/-- The environment of a stream: the kernel keeps within what it is offered. -/
def StreamInput (s : Socket) (i : ClientInput) : Prop :=
  i.Streams ∧ ∀ after ∈ clientStep s i, WithinRequest after.2

instance (s : Socket) (i : ClientInput) : Decidable (StreamInput s i) :=
  inferInstanceAs (Decidable (_ ∧ _))

/-- The write buffers `l` hold `bytes`, and the counter says how many these are. -/
structure Pending (s : Socket) (l : List Nat) (bytes : List Byte) : Prop where
  list : WriteList s l
  holds : (l.flatMap fun a => (s.node a).bytes) = bytes
  within : ∀ a ∈ l, (s.node a).ptr + (s.node a).sz ≤ (s.node a).buffer.length
  size : s.wbSize = bytes.length

variable {s s' : Socket} {o : List ClientAct} {l : List Nat} {bytes : List Byte}

theorem WriteList.writeBuffers_eq (h : WriteList s l) : s.writeBuffers = l :=
  h.chain.walk_eq (length_le_of_nodup_lt h.chain.nodup h.fresh)

theorem Pending.pendingBytes_eq (h : Pending s l bytes) : s.pendingBytes = bytes := by
  rw [Socket.pendingBytes, h.list.writeBuffers_eq, h.holds]

theorem socketConnect_pending (s : Socket) (fd : Int) : Pending (socketConnect s fd) [] [] :=
  ⟨⟨rfl, rfl, by simp⟩, rfl, by simp, rfl⟩

theorem length_bytes {w : WriteBuffer} (h : w.ptr + w.sz ≤ w.buffer.length) :
    w.bytes.length = w.sz := by
  rw [WriteBuffer.bytes, List.length_take, List.length_drop]
  omega

theorem bytes_advance (w : WriteBuffer) (n : Nat) :
    WriteBuffer.bytes { w with ptr := w.ptr + n, sz := w.sz - n } = w.bytes.drop n := by
  simp only [WriteBuffer.bytes, List.drop_take, List.drop_drop]

theorem WithinRequest.of_cons {x : ClientAct} (h : WithinRequest (x :: o)) : WithinRequest o := by
  intro p hp
  obtain ⟨act, hact, hwritten⟩ := List.mem_filterMap.mp hp
  exact h p (List.mem_filterMap.mpr ⟨act, List.mem_cons_of_mem x hact, hwritten⟩)

theorem WithinRequest.head {fd : Int} {data : List Byte} {n : Nat}
    (h : WithinRequest (.write fd data (.wrote n) :: o)) : n ≤ data.length :=
  h (data, n) List.mem_cons_self

/-! ## One operation -/

/-- The new write buffer holds the bytes from `n` on; the others keep theirs. -/
theorem appendSendbuffer_nodes {buffer : List Byte} {n : Nat}
    (h : appendSendbuffer s buffer n = some s') :
    s'.wbSize = s.wbSize + (buffer.length - n : Nat) ∧
      (∃ wb : Option Nat, s'.node s.brk = ⟨wb, n, buffer.length - n, buffer⟩) ∧
      ∀ a, a ≠ s.brk → ∃ wb : Option Nat, s'.node a = { s.node a with next := wb } := by
  unfold appendSendbuffer at h
  split at h
  · obtain rfl := Option.some.inj h
    refine ⟨rfl, ⟨none, by simp⟩, fun a ha => ⟨(s.node a).next, ?_⟩⟩
    simp [ha]
  · split at h
    · simp at h
    · next t ht =>
      split at h
      · obtain rfl := Option.some.inj h
        refine ⟨rfl, ?_, ?_⟩
        · by_cases hbrk : s.brk = t
          · subst hbrk
            exact ⟨some s.brk, by simp⟩
          · exact ⟨none, by simp [hbrk]⟩
        · intro a ha
          by_cases hat : a = t
          · subst hat
            exact ⟨some s.brk, by simp [ha]⟩
          · exact ⟨(s.node a).next, by simp [ha, hat]⟩
      · simp at h

theorem appendSendbuffer_pending (h : Pending s l bytes) {buffer : List Byte} {n : Nat}
    (hrun : appendSendbuffer s buffer n = some s') (hn : n ≤ buffer.length) :
    s'.fd = s.fd ∧ Pending s' (l ++ [s.brk]) (bytes ++ buffer.drop n) := by
  obtain ⟨s₁, hrun₁, hlist, hfd, -⟩ := appendSendbuffer_spec h.list buffer n
  obtain rfl := Option.some.inj (hrun.symm.trans hrun₁)
  obtain ⟨hsize, ⟨wb, hnew⟩, hold⟩ := appendSendbuffer_nodes hrun
  have hne : ∀ a ∈ l, a ≠ s.brk := fun a ha => Nat.ne_of_lt (h.list.fresh a ha)
  have hsame : ∀ a ∈ l, (s'.node a).bytes = (s.node a).bytes := by
    intro a ha
    obtain ⟨wb, hwb⟩ := hold a (hne a ha)
    rw [hwb]
    rfl
  have hbytes : (s'.node s.brk).bytes = buffer.drop n := by
    rw [hnew, WriteBuffer.bytes, List.take_of_length_le (by simp)]
  refine ⟨hfd, hlist, ?_, ?_, ?_⟩
  · rw [List.flatMap_append, List.flatMap_congr hsame, h.holds]
    simp [hbytes]
  · intro a ha
    rcases List.mem_append.mp ha with ha | ha
    · obtain ⟨wb, hwb⟩ := hold a (hne a ha)
      rw [hwb]
      exact h.within a ha
    · rw [List.mem_singleton.mp ha, hnew]
      simp only
      omega
  · rw [hsize, h.size, List.length_append, List.length_drop]
    omega

/-- What is accepted and what is pending after an operation make up `stream`. -/
structure Streamed (s s' : Socket) (o : List ClientAct) (stream : List Byte) : Prop where
  fd : s'.fd = s.fd
  pending : ∃ l bytes, Pending s' l bytes ∧ acceptedIn o ++ bytes = stream

theorem Streamed.write {stream taken : List Byte} {s₁ : Socket} (h : Streamed s₁ s' o stream)
    (hs₁ : s₁.fd = s.fd) {fd : Int} {data : List Byte} {w : WriteResult}
    (hw : acceptedIn [.write fd data w] = taken) :
    Streamed s s' (.write fd data w :: o) (taken ++ stream) := by
  obtain ⟨hfd, l, bytes, hpending, rfl⟩ := h
  refine ⟨hfd.trans hs₁, l, bytes, hpending, ?_⟩
  rw [← hw, ← List.append_assoc, ← acceptedIn_append]
  rfl

theorem Pending.head_none (h : Pending s l bytes) (hhead : s.head = none) : l = [] ∧ bytes = [] := by
  have hchain := h.list.chain
  rw [hhead] at hchain
  obtain rfl := hchain.of_none
  exact ⟨rfl, h.holds.symm⟩

theorem socketSendWritten_streamed (h : Pending s [] []) (buffer : List Byte) (w : WriteResult)
    (n : Nat) :
    ∃ s' o, socketSendWritten s buffer w n = some (s', .write s.fd buffer w :: o) ∧
      (n ≤ buffer.length → acceptedIn [.write s.fd buffer w] = buffer.take n →
        Streamed s s' (.write s.fd buffer w :: o) buffer) := by
  have htaken : ∀ ret, acceptedIn [.write s.fd buffer w, .send buffer ret] =
      acceptedIn [.write s.fd buffer w] := by
    intro ret
    rw [← List.singleton_append, acceptedIn_append, acceptedIn_send, List.append_nil]
  unfold socketSendWritten
  split
  · next hfull =>
    refine ⟨_, _, rfl, fun _ haccepted => ⟨rfl, [], [], h, ?_⟩⟩
    rw [htaken, haccepted, hfull, List.take_length, List.append_nil]
  · obtain ⟨s', hrun, -⟩ := appendSendbuffer_spec h.list buffer n
    simp only [hrun, Option.bind_eq_bind, Option.bind_some]
    refine ⟨_, _, rfl, fun hn haccepted => ?_⟩
    obtain ⟨hfd, hs'⟩ := appendSendbuffer_pending h hrun hn
    refine ⟨hfd, _, _, hs', ?_⟩
    rw [htaken, haccepted, List.nil_append, List.take_append_drop]

theorem socketSend_streamed (h : Pending s l bytes) (hfd : s.fd ≠ -1) (buffer : List Byte)
    {w : WriteResult} (hw : w ≠ .fatal) :
    ∃ s' o, socketSend s buffer w = some (s', o) ∧
      (WithinRequest o → Streamed s s' o (bytes ++ buffer)) := by
  unfold socketSend
  rw [if_neg hfd]
  cases hhead : s.head with
  | some a =>
    obtain ⟨s', hrun, -⟩ := appendSendbuffer_spec h.list buffer 0
    obtain ⟨hfd', hs'⟩ := appendSendbuffer_pending h hrun (Nat.zero_le _)
    simp only [hrun, Option.bind_eq_bind, Option.bind_some]
    exact ⟨_, _, rfl, fun _ => ⟨hfd', _, _, hs', by simp⟩⟩
  | none =>
    obtain ⟨rfl, rfl⟩ := h.head_none hhead
    have hnothing : acceptedIn [.write s.fd buffer w] = buffer.take 0 →
        ∃ s' o, socketSendWritten s buffer w 0 = some (s', o) ∧
          (WithinRequest o → Streamed s s' o ([] ++ buffer)) := by
      intro haccepted
      obtain ⟨s', o, hrun, hstream⟩ := socketSendWritten_streamed h buffer w 0
      exact ⟨s', _, hrun, fun _ => hstream (Nat.zero_le _) haccepted⟩
    cases w with
    | wrote n =>
      obtain ⟨s', o, hrun, hstream⟩ := socketSendWritten_streamed h buffer (.wrote n) n
      exact ⟨s', _, hrun, fun hwithin => hstream hwithin.head (by simp)⟩
    | eintr => exact hnothing rfl
    | eagain => exact hnothing rfl
    | fatal => exact absurd rfl hw

/-- The first write buffer, after a write that has taken `n` of its bytes. -/
theorem Pending.advance {tmp : Nat} (h : Pending s (tmp :: l) bytes) {n : Nat}
    (hn : n ≤ (s.node tmp).sz) :
    Pending { s with
      wbSize := s.wbSize - n
      node := Function.update s.node tmp
        { s.node tmp with ptr := (s.node tmp).ptr + n, sz := (s.node tmp).sz - n } }
      (tmp :: l) (bytes.drop n) ∧ (s.node tmp).bytes.take n = bytes.take n := by
  have hlen := length_bytes (h.within tmp List.mem_cons_self)
  have hbytes := h.holds
  rw [List.flatMap_cons] at hbytes
  have hnot : ∀ a ∈ l, a ≠ tmp := by
    intro a ha heq
    subst heq
    exact (List.nodup_cons.mp h.list.chain.nodup).1 ha
  have hrest : ∀ a ∈ l, Function.update s.node tmp
      { s.node tmp with ptr := (s.node tmp).ptr + n, sz := (s.node tmp).sz - n } a = s.node a :=
    fun a ha => Function.update_of_ne (hnot a ha) _ _
  refine ⟨⟨⟨?_, h.list.tail, h.list.fresh⟩, ?_, ?_, ?_⟩, ?_⟩
  · apply h.list.chain.congr
    intro a _
    by_cases ha : a = tmp
    · simp [ha]
    · simp [ha]
  · simp only [List.flatMap_cons, Function.update_self, bytes_advance]
    rw [List.flatMap_congr fun a ha => congrArg WriteBuffer.bytes (hrest a ha), ← hbytes,
      List.drop_append_of_le_length (by omega)]
  · intro a ha
    rcases List.mem_cons.mp ha with rfl | ha
    · have := h.within a List.mem_cons_self
      simp only [Function.update_self]
      omega
    · simp only [hrest a ha]
      exact h.within a (List.mem_cons_of_mem tmp ha)
  · have hle : n ≤ bytes.length := by
      rw [← hbytes, List.length_append]
      omega
    simp only [h.size, List.length_drop]
    omega
  · rw [← hbytes, List.take_append_of_le_length (by omega)]

/-- The rest of the list, once the first write buffer has been written in full. -/
theorem Pending.tail {tmp : Nat} (h : Pending s (tmp :: l) bytes) (s₁ : Socket)
    (hhead : s₁.head = (s.node tmp).next) (htail : s₁.tail = (if l = [] then none else s.tail))
    (hnode : s₁.node = s.node) (hbrk : s₁.brk = s.brk)
    (hsize : s₁.wbSize = s.wbSize - (s.node tmp).sz) :
    ∃ rest, Pending s₁ l rest ∧ (s.node tmp).bytes ++ rest = bytes := by
  have hlen := length_bytes (h.within tmp List.mem_cons_self)
  have hbytes := h.holds
  rw [List.flatMap_cons] at hbytes
  refine ⟨_, ⟨⟨?_, ?_, ?_⟩, rfl, ?_, ?_⟩, ?_⟩
  · rw [hhead, hnode]
    exact h.list.chain.2
  · rw [htail, h.list.tail]
    cases l with
    | nil => rfl
    | cons a l => simp
  · rw [hbrk]
    exact fun a ha => h.list.fresh a (List.mem_cons_of_mem tmp ha)
  · rw [hnode]
    exact fun a ha => h.within a (List.mem_cons_of_mem tmp ha)
  · rw [hsize, h.size, ← hbytes, hnode, List.length_append, hlen]
    push_cast
    omega
  · rw [hnode]
    exact hbytes

theorem remainbufferLoop_streamed (h : Pending s l bytes) {ws : List WriteResult}
    (hws : .fatal ∉ ws) :
    ∃ s' ret o, socketSendRemainbufferLoop ws s = some (s', ret, o) ∧
      (WithinRequest o → Streamed s s' o bytes) := by
  have hempty : ∀ {s : Socket} {l bytes} (ws), Pending s l bytes → s.head = none →
      ∃ s' ret o, socketSendRemainbufferLoop ws s = some (s', ret, o) ∧
        (WithinRequest o → Streamed s s' o bytes) := by
    intro s l bytes ws h hhead
    obtain ⟨rfl, rfl⟩ := h.head_none hhead
    exact ⟨_, _, _, remainbufferLoop_empty hhead ws, fun _ =>
      ⟨rfl, [], [], ⟨⟨hhead, rfl, by simp⟩, rfl, by simp, h.size⟩, rfl⟩⟩
  induction ws generalizing s l bytes with
  | nil =>
    cases hhead : s.head with
    | none => exact hempty [] h hhead
    | some tmp =>
      unfold socketSendRemainbufferLoop
      rw [hhead]
      exact ⟨_, _, _, rfl, fun _ => ⟨rfl, l, bytes, h, rfl⟩⟩
  | cons w ws ih =>
    have hws' : .fatal ∉ ws := fun hmem => hws (List.mem_cons_of_mem w hmem)
    cases hhead : s.head with
    | none => exact hempty (w :: ws) h hhead
    | some tmp =>
      obtain ⟨l', rfl, -⟩ := (hhead ▸ h.list.chain).of_some
      have hlen := length_bytes (h.within tmp List.mem_cons_self)
      unfold socketSendRemainbufferLoop
      rw [hhead]
      cases w with
      | eintr =>
        obtain ⟨s', ret, o, hrun, hstream⟩ := ih h hws'
        simp only [hrun, Option.bind_eq_bind, Option.bind_some]
        exact ⟨_, _, _, rfl, fun hwithin => (hstream hwithin.of_cons).write rfl rfl⟩
      | eagain => exact ⟨_, _, _, rfl, fun _ => ⟨rfl, _, bytes, h, rfl⟩⟩
      | fatal => exact absurd List.mem_cons_self hws
      | wrote sz =>
        simp only
        split
        · refine ⟨_, _, _, rfl, fun hwithin => ?_⟩
          have hle := hwithin.head
          obtain ⟨hadvance, htaken⟩ := h.advance (n := sz) (by omega)
          rw [hhead] at hadvance
          refine ⟨rfl, _, _, hadvance, ?_⟩
          rw [acceptedIn_wrote, htaken, List.take_append_drop]
        · next hfull =>
          obtain rfl : sz = (s.node tmp).sz := by simpa using hfull
          have htake : acceptedIn [.write s.fd (s.node tmp).bytes (.wrote (s.node tmp).sz)] =
              (s.node tmp).bytes := by
            rw [acceptedIn_wrote, ← hlen, List.take_length]
          cases l' with
          | nil =>
            -- the list is empty now, while `tail` still points to the freed node
            have hnone : (s.node tmp).next = none := h.list.chain.2
            obtain ⟨rest, hrest, hbytes⟩ := h.tail { s with
              wbSize := s.wbSize - (s.node tmp).sz
              head := (s.node tmp).next
              tail := none } rfl rfl rfl rfl rfl
            rw [remainbufferLoop_empty hnone]
            refine ⟨_, _, _, rfl, fun _ => ⟨rfl, [], rest, hrest, ?_⟩⟩
            rw [htake, hbytes]
          | cons a l' =>
            obtain ⟨rest, hrest, hbytes⟩ := h.tail { s with
              wbSize := s.wbSize - (s.node tmp).sz
              head := (s.node tmp).next } rfl rfl rfl rfl rfl
            obtain ⟨s', ret, o, hrun, hstream⟩ := ih hrest hws'
            simp only [hrun, Option.bind_eq_bind, Option.bind_some]
            rw [← hbytes]
            exact ⟨_, _, _, rfl, fun hwithin => (hstream hwithin.of_cons).write (s := s) rfl htake⟩

/-! ## Runs -/

theorem clientStep_streamed (h : Pending s l bytes) (hfd : s.fd ≠ -1) {i : ClientInput}
    (hi : i.Streams) :
    ∃ s' o, clientStep s i = some (s', o) ∧ (WithinRequest o →
      Streamed s s' o (bytes ++ sentBy ⟨s, i, o, s'⟩)) := by
  cases i with
  | send buffer w =>
    obtain ⟨s', o, hrun, hstream⟩ := socketSend_streamed h hfd buffer hi
    refine ⟨s', o, hrun, fun hwithin => ?_⟩
    simpa [sentBy] using hstream hwithin
  | sendRemainbuffer ws =>
    obtain ⟨s', ret, o, hrun, hstream⟩ := remainbufferLoop_streamed h hi
    refine ⟨s', o, ?_, fun hwithin => ?_⟩
    · simp only [clientStep, socketSendRemainbuffer, if_neg hfd, hrun, Option.map_some]
    · simpa [sentBy] using hstream hwithin
  | msgdispatch r sends => exact hi.elim

theorem stream_run {fd : Int} (hfd : fd ≠ -1) {tr : List (Record Socket ClientInput ClientAct)}
    (h : Exec clientStep StreamInput (socketConnect s fd) tr s') :
    s'.fd = fd ∧ ∃ l bytes, Pending s' l bytes ∧ acceptedIn (outputsOf tr) ++ bytes = sentIn tr := by
  induction h with
  | nil => exact ⟨rfl, [], [], socketConnect_pending s fd, rfl⟩
  | @snoc tr s₁ s₂ i o hrun hok hstep ih =>
    obtain ⟨hfd₁, l, bytes, hpending, hsent⟩ := ih
    obtain ⟨s₃, o₃, hrun', hstream⟩ := clientStep_streamed hpending (hfd₁ ▸ hfd) hok.1
    obtain ⟨rfl, rfl⟩ := Prod.mk.inj (Option.some.inj (hstep.symm.trans hrun'))
    obtain ⟨hfd', l', bytes', hpending', hmove⟩ := hstream (hok.2 _ hstep)
    refine ⟨hfd'.trans hfd₁, l', bytes', hpending', ?_⟩
    rw [outputsOf_snoc, acceptedIn_append, sentIn_snoc, ← hsent, List.append_assoc,
      List.append_assoc, hmove]

/-- The sending half of a socket on which `sent` was sent and of which `accepted` is written. -/
structure ExactStream (s : Socket) (sent accepted : List Byte) : Prop where
  stream : accepted ++ s.pendingBytes = sent
  size : s.wbSize = s.pendingBytes.length
  list : Chain (fun a => (s.node a).next) s.head s.writeBuffers
  ends : s.head = none ↔ s.tail = none
  last : s.tail = s.writeBuffers.getLast?
  last_next : ∀ t, s.tail = some t → (s.node t).next = none
  total : ∀ i : ClientInput, i.Streams → ∃ s' o, clientStep s i = some (s', o)

theorem send_stream_exact (s : Socket) {fd : Int} (hfd : fd ≠ -1)
    {tr : List (Record Socket ClientInput ClientAct)}
    (h : Exec clientStep StreamInput (socketConnect s fd) tr s') :
    ExactStream s' (sentIn tr) (acceptedIn (outputsOf tr)) := by
  obtain ⟨hfd', l, bytes, hpending, hsent⟩ := stream_run hfd h
  have hbytes := hpending.pendingBytes_eq
  have hlist := hpending.list.writeBuffers_eq
  have hchain := hpending.list.chain
  have htail := hpending.list.tail
  refine ⟨?_, ?_, ?_, ?_, ?_, ?_, ?_⟩
  · rw [hbytes, hsent]
  · rw [hbytes, hpending.size]
  · rw [hlist]
    exact hchain
  · rw [htail]
    cases l with
    | nil => simpa using hchain
    | cons a l => simp [hchain.1]
  · rw [hlist, htail]
  · intro t ht
    exact hchain.next_last (htail ▸ ht)
  · intro i hi
    obtain ⟨s₁, o, hrun, -⟩ := clientStep_streamed hpending (hfd' ▸ hfd) hi
    exact ⟨s₁, o, hrun⟩

/-- A send that stays partly in the list, one queued behind it, and a flush that gets stuck. -/
theorem send_stream_exact_partial :
    ∃ tr s', Exec clientStep StreamInput (socketConnect socketNew 3) tr s' ∧
      s'.pendingBytes = [5#8, 6#8] ∧ acceptedIn (outputsOf tr) = [1#8, 2#8, 3#8, 4#8] ∧
      ExactStream s' (sentIn tr) (acceptedIn (outputsOf tr)) := by
  have hrun : (execute clientStep StreamInput (socketConnect socketNew 3)
      [.send [1#8, 2#8, 3#8] (.wrote 1), .send [4#8, 5#8, 6#8] .eagain,
        .sendRemainbuffer [.eintr, .wrote 2, .wrote 1]]).map
      (fun run => (run.2.pendingBytes, acceptedIn (outputsOf run.1))) =
      some ([5#8, 6#8], [1#8, 2#8, 3#8, 4#8]) := by decide +kernel
  obtain ⟨tr, s', h, hdata⟩ := exists_exec _ hrun
  obtain ⟨hpending, haccepted⟩ := Prod.mk.inj hdata
  exact ⟨tr, s', h, hpending, haccepted, send_stream_exact socketNew (by decide) h⟩

end NetgameFormal
