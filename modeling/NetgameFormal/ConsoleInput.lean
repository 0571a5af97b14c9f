import NetgameFormal.MessageQueue
import NetgameFormal.Runs
import NetgameFormal.Bytes
import NetgameFormal.BoundedLines

/-!
# Lines from the keyboard

`readline_stdin` runs in a thread of its own and puts what `fgets` returns in a
ring; `lreadstdin` takes it out. The ring is the one of `MessageQueue`, but it
never grows: a full one ends the process, and so does the end of the input when
`fgets` meets it with nothing read. Both sides hold the spin lock while they use the ring,
so their steps are interleaved one by one.
-/

set_option autoImplicit false

namespace NetgameFormal

open BoundedLines (readLine pieces unlines)

def QUEUE_SIZE : Nat := 1024

/-- `sizeof(tmp)` -/
def TMP_SIZE : Nat := 1024

def newline : Byte := 10#8

/-- The ring's next state as long as it does not overflow. -/
def MessageQueue.store {α : Type} (q : MessageQueue α) (message : α) : MessageQueue α :=
  { q with queue := Function.update q.queue q.tail (some message), tail := q.advance q.tail }

structure Console where
  stdin : List Byte
  feof : Bool
  queue : MessageQueue (List Byte)
  exited : Bool

def consoleInit (stdin : List Byte) : Console := ⟨stdin, false, ⟨QUEUE_SIZE, 0, 0, fun _ => none⟩, false⟩

inductive ConsoleTurn where
  | readlineStdin
  | lreadstdin
  deriving DecidableEq

inductive ConsoleAct where
  | returned (str : Option (List Byte))
  | exit
  deriving DecidableEq

/-- What is kept of the buffer: `strlen` bytes, without the last. -/
def trimmed (tmp : List Byte) : List Byte := tmp.take (strlen tmp - 1)

/-- One round of the loop of `readline_stdin`. With a zero byte in front the length to copy is -1,
which is undefined. -/
def readlineStdin (c : Console) : Option (Console × List ConsoleAct) :=
  if c.feof then some (c, [])
  else
    let (tmp, stdin) := readLine newline (TMP_SIZE - 1) c.stdin
    -- `fgets` looks behind the last byte only when it still wants one
    let feof := decide (tmp.length < TMP_SIZE - 1 ∧ newline ∉ tmp)
    if tmp = [] then some ({ c with exited := true }, [.exit])
    else if strlen tmp = 0 then none
    else
      let queue := c.queue.store (trimmed tmp)
      if queue.head = queue.tail then some ({ c with exited := true }, [.exit])
      else some (⟨stdin, feof, queue, false⟩, [])

def lreadstdin (c : Console) : Option (Console × List ConsoleAct) :=
  match c.queue.pop with
  | none => none
  | some (queue, str) => some ({ c with queue := queue }, [.returned str])

def consoleStep (c : Console) (turn : ConsoleTurn) : Option (Console × List ConsoleAct) :=
  if c.exited then none
  else
    match turn with
    | .readlineStdin => readlineStdin c
    | .lreadstdin => lreadstdin c

def ConsoleAct.line : ConsoleAct → Option (List Byte)
  | .returned str => str
  | .exit => none

def returnedLines (acts : List ConsoleAct) : List (List Byte) := acts.filterMap ConsoleAct.line

/-- All that `fgets` returns for this input. -/
def fgetsAll (stdin : List Byte) : List (List Byte) := pieces newline (TMP_SIZE - 1) stdin

/-- The ring holds `waiting`; with what was returned it makes up what has been read. -/
structure ConsoleOk (input : List Byte) (returned : List (List Byte)) (c : Console) : Prop where
  cap : c.queue.cap = QUEUE_SIZE
  ring : c.queue.Contains c.queue.messages
  order : ∃ read, fgetsAll input = read ++ fgetsAll c.stdin ∧
    read.map trimmed = returned ++ c.queue.messages

section Ring

variable {α : Type} {q : MessageQueue α} {l : List α}

theorem MessageQueue.Contains.store_head_eq_iff (h : q.Contains l) (x : α) :
    (q.store x).head = (q.store x).tail ↔ l.length + 1 = q.cap := by
  have hlt := h.length_lt
  have hcap : 0 < q.cap := Nat.zero_lt_of_lt h.head_lt
  have hhead : (q.head + 0) % q.cap = q.head := Nat.mod_eq_of_lt h.head_lt
  have htail : (q.store x).tail = (q.head + (l.length + 1)) % q.cap := by
    simp only [MessageQueue.store]
    rw [MessageQueue.advance_eq h.tail_lt, h.tail_eq, Nat.mod_add_mod, Nat.add_assoc]
  rw [htail]
  change q.head = _ ↔ _
  constructor
  · intro heq
    by_contra hne
    exact MessageQueue.cell_ne hcap (by omega) (Nat.succ_ne_zero l.length).symm (hhead.trans heq)
  · intro hfull
    rw [hfull, Nat.add_mod_right, Nat.mod_eq_of_lt h.head_lt]

theorem MessageQueue.Contains.store (h : q.Contains l) (x : α) (hroom : l.length + 1 ≠ q.cap) :
    (q.store x).Contains (l ++ [x]) := by
  have hpush := h.push x
  have hne : ¬ (q.store x).head = (q.store x).tail := by
    rw [h.store_head_eq_iff]
    exact hroom
  have heq : q.push x = q.store x := if_neg hne
  rwa [heq] at hpush

theorem MessageQueue.pop_cap {q' : MessageQueue α} {x : Option α} (h : q.pop = some (q', x)) :
    q'.cap = q.cap := by
  unfold MessageQueue.pop at h
  split at h
  · split at h
    · cases h
    · rw [← (Prod.mk.inj (Option.some.inj h)).1]
  · rw [← (Prod.mk.inj (Option.some.inj h)).1]

end Ring

section Reading

variable {input : List Byte} {returned : List (List Byte)} {c c' : Console}
variable {turn : ConsoleTurn} {o : List ConsoleAct}

@[simp] theorem returnedLines_exit : returnedLines [.exit] = [] := rfl

@[simp] theorem returnedLines_returned (str : Option (List Byte)) :
    returnedLines [.returned str] = str.toList := by
  cases str <;> rfl

theorem consoleStep_running (h : consoleStep c turn = some (c', o)) : c.exited = false := by
  unfold consoleStep at h
  cases hexited : c.exited with
  | true => simp [hexited] at h
  | false => rfl

theorem ConsoleOk.init (input : List Byte) : ConsoleOk input [] (consoleInit input) where
  cap := rfl
  ring := ⟨Nat.zero_lt_succ _, Nat.zero_lt_succ _, rfl, fun i hi => absurd hi (Nat.not_lt_zero i)⟩
  order := ⟨[], rfl, rfl⟩

theorem fgetsAll_eq {stdin : List Byte} (h : (readLine newline (TMP_SIZE - 1) stdin).1 ≠ []) :
    fgetsAll stdin = (readLine newline (TMP_SIZE - 1) stdin).1 ::
      fgetsAll (readLine newline (TMP_SIZE - 1) stdin).2 := by
  apply BoundedLines.pieces_of_ne_nil (by decide)
  rintro rfl
  exact h rfl

theorem readLine_eq_nil_iff {stdin : List Byte} :
    (readLine newline (TMP_SIZE - 1) stdin).1 = [] ↔ stdin = [] := by
  constructor
  · intro h
    by_contra hne
    exact BoundedLines.readLine_ne_nil (by decide) hne h
  · rintro rfl
    rfl

/-- What a round of the thread can do. -/
theorem readlineStdin_cases (hok : ConsoleOk input returned c)
    (h : readlineStdin c = some (c', o)) :
    (c.feof = true ∧ c' = c ∧ o = []) ∨
    (c.feof = false ∧ (c.stdin = [] ∨ c.queue.messages.length + 1 = QUEUE_SIZE) ∧
      c' = { c with exited := true } ∧ o = [.exit]) ∨
    (c.feof = false ∧ c.stdin ≠ [] ∧ c.queue.messages.length + 1 ≠ QUEUE_SIZE ∧ o = [] ∧
      c'.queue = c.queue.store (trimmed (readLine newline (TMP_SIZE - 1) c.stdin).1) ∧
      c'.stdin = (readLine newline (TMP_SIZE - 1) c.stdin).2) := by
  cases hfeof : c.feof with
  | true =>
    rw [readlineStdin, if_pos hfeof] at h
    obtain ⟨rfl, rfl⟩ := Prod.mk.inj (Option.some.inj h)
    exact .inl ⟨rfl, rfl, rfl⟩
  | false =>
    right
    simp only [readlineStdin, hfeof, Bool.false_eq_true, if_false, readLine_eq_nil_iff,
      hok.ring.store_head_eq_iff, hok.cap] at h
    split at h
    · next hend =>
      obtain ⟨rfl, rfl⟩ := Prod.mk.inj (Option.some.inj h)
      exact .inl ⟨rfl, .inl hend, rfl, rfl⟩
    · next hmore =>
      split at h
      · cases h
      · split at h
        · next hfull =>
          obtain ⟨rfl, rfl⟩ := Prod.mk.inj (Option.some.inj h)
          exact .inl ⟨rfl, .inr hfull, rfl, rfl⟩
        · next hroom =>
          obtain ⟨rfl, rfl⟩ := Prod.mk.inj (Option.some.inj h)
          exact .inr ⟨rfl, hmore, hroom, rfl, rfl, rfl⟩

theorem lreadstdin_cases (hok : ConsoleOk input returned c) (h : lreadstdin c = some (c', o)) :
    (c.queue.messages = [] ∧ c' = c ∧ o = [.returned none]) ∨
    ∃ str later queue, c.queue.messages = str :: later ∧ queue.Contains later ∧
      queue.cap = c.queue.cap ∧ c' = { c with queue := queue } ∧ o = [.returned (some str)] := by
  have hring := hok.ring
  unfold lreadstdin at h
  cases hmessages : c.queue.messages with
  | nil =>
    rw [hmessages] at hring
    rw [hring.pop_nil] at h
    obtain ⟨rfl, rfl⟩ := Prod.mk.inj (Option.some.inj h)
    exact .inl ⟨rfl, rfl, rfl⟩
  | cons str later =>
    rw [hmessages] at hring
    obtain ⟨queue, hpop, hqueue⟩ := hring.pop_cons
    rw [hpop] at h
    obtain ⟨rfl, rfl⟩ := Prod.mk.inj (Option.some.inj h)
    exact .inr ⟨str, later, queue, rfl, hqueue, MessageQueue.pop_cap hpop, rfl, rfl⟩

/-- The step lemma. -/
theorem ConsoleOk.step (hok : ConsoleOk input returned c) (h : consoleStep c turn = some (c', o)) :
    ConsoleOk input (returned ++ returnedLines o) c' := by
  obtain ⟨read, hinput, horder⟩ := hok.order
  have hexited := consoleStep_running h
  simp only [consoleStep, hexited, Bool.false_eq_true, if_false] at h
  cases turn with
  | readlineStdin =>
    rcases readlineStdin_cases hok h with ⟨-, rfl, rfl⟩ | ⟨-, -, rfl, rfl⟩ |
      ⟨-, hmore, hroom, rfl, hqueue, hstdin⟩
    · simpa [returnedLines] using hok
    · exact ⟨hok.cap, hok.ring, read, hinput, by simpa using horder⟩
    · have hstore := hok.ring.store (trimmed (readLine newline (TMP_SIZE - 1) c.stdin).1)
        (by rw [hok.cap]; exact hroom)
      have hmessages := hstore.messages_eq
      have hline := mt readLine_eq_nil_iff.mp hmore
      refine ⟨?_, ?_, read ++ [(readLine newline (TMP_SIZE - 1) c.stdin).1], ?_, ?_⟩
      · rw [hqueue]
        exact hok.cap
      · rw [hqueue, hmessages]
        exact hstore
      · rw [hinput, fgetsAll_eq hline, hstdin, List.append_assoc]
        rfl
      · rw [List.map_append, horder, hqueue, hmessages]
        simp [returnedLines]
  | lreadstdin =>
    rcases lreadstdin_cases hok h with ⟨-, rfl, rfl⟩ | ⟨str, later, queue, hmessages, hqueue, hcap, rfl, rfl⟩
    · simpa using hok
    · have hlater := hqueue.messages_eq
      refine ⟨hcap.trans hok.cap, ?_, read, hinput, ?_⟩
      · simp only [hlater]
        exact hqueue
      · simp only [hlater]
        rw [horder, hmessages]
        simp

/-- The run lemma, for every order of the steps of both threads. -/
theorem console_run {tr : List (Record Console ConsoleTurn ConsoleAct)}
    (h : Exec consoleStep (fun _ _ => True) (consoleInit input) tr c) :
    ConsoleOk input (returnedLines (outputsOf tr)) c := by
  induction h with
  | nil => exact .init input
  | snoc _ _ hstep ih =>
    rw [outputsOf_snoc, returnedLines, List.filterMap_append]
    exact ih.step hstep

theorem exit_iff (hok : ConsoleOk input returned c) (h : consoleStep c turn = some (c', o)) :
    .exit ∈ o ↔ turn = .readlineStdin ∧ c.feof = false ∧
      (c.stdin = [] ∨ c.queue.messages.length + 1 = QUEUE_SIZE) := by
  have hexited := consoleStep_running h
  simp only [consoleStep, hexited, Bool.false_eq_true, if_false] at h
  cases turn with
  | readlineStdin =>
    rcases readlineStdin_cases hok h with ⟨hfeof, -, rfl⟩ | ⟨hfeof, hwhy, -, rfl⟩ |
      ⟨hfeof, hmore, hroom, rfl, -⟩
    · simp [hfeof]
    · simp [hfeof, hwhy]
    · simp [hmore, hroom]
  | lreadstdin =>
    rcases lreadstdin_cases hok h with ⟨-, -, rfl⟩ | ⟨str, later, queue, -, -, -, -, rfl⟩ <;> simp

end Reading

/-! ## Lines as they were typed -/

theorem trimmed_line {line : List Byte} (hline : 0#8 ∉ line) : trimmed (line ++ [newline]) = line := by
  have hplain : 0#8 ∉ line ++ [newline] := by simp [hline, newline]
  rw [trimmed, strlen_eq_length hplain, List.length_append, List.length_singleton,
    Nat.add_sub_cancel, List.take_left]

theorem trimmed_piece {line : List Byte} (hline : 0#8 ∉ line) (hlong : TMP_SIZE - 1 ≤ line.length) :
    trimmed (line.take (TMP_SIZE - 1)) ≠ line := by
  have hplain : 0#8 ∉ line.take (TMP_SIZE - 1) := fun h => hline (List.mem_of_mem_take h)
  intro heq
  have hlength := congrArg List.length heq
  have hpos : 0 < TMP_SIZE - 1 := by decide
  rw [trimmed, strlen_eq_length hplain, List.length_take, List.length_take] at hlength
  omega

/-- Lines of at most 1022 bytes come out as they were typed, and no others do. -/
theorem fgetsAll_unlines_iff {lines : List (List Byte)}
    (hlines : ∀ line ∈ lines, newline ∉ line ∧ 0#8 ∉ line) :
    (fgetsAll (unlines newline lines)).map trimmed = lines ↔
      ∀ line ∈ lines, line.length < TMP_SIZE - 1 :=
  BoundedLines.map_pieces_unlines_iff (by decide)
    (fun line hline => trimmed_line (hlines line hline).2)
    (fun line hline => trimmed_piece (hlines line hline).2) fun line hline => (hlines line hline).1

/-- In every order of the steps of both threads, what `readstdin` has returned and what waits are the
first pieces of the input, trimmed and in order. Where every line ends in a newline and holds no zero
byte, the pieces are the lines exactly if each has at most 1022 bytes. The thread ends the process
exactly when it needs input behind the last piece, or room behind 1023 lines that wait. -/
theorem console_lines (input : List Byte) {tr : List (Record Console ConsoleTurn ConsoleAct)}
    {c : Console} (h : Exec consoleStep (fun _ _ => True) (consoleInit input) tr c) :
    (∃ read, fgetsAll input = read ++ fgetsAll c.stdin ∧
        returnedLines (outputsOf tr) ++ c.queue.messages = read.map trimmed) ∧
      c.queue.messages.length < QUEUE_SIZE ∧
      (∀ q ∈ tr, .exit ∈ q.output ↔ q.input = .readlineStdin ∧ q.pre.feof = false ∧
        (q.pre.stdin = [] ∨ q.pre.queue.messages.length + 1 = QUEUE_SIZE)) ∧
      ∀ lines, (∀ line ∈ lines, newline ∉ line ∧ 0#8 ∉ line) → input = unlines newline lines →
        ((fgetsAll input).map trimmed = lines ↔ ∀ line ∈ lines, line.length < TMP_SIZE - 1) := by
  have hok := console_run h
  obtain ⟨read, hinput, horder⟩ := hok.order
  refine ⟨⟨read, hinput, horder.symm⟩, hok.cap ▸ hok.ring.length_lt, ?_, ?_⟩
  · intro q hq
    let Inv : Console → Prop := fun c => ∃ returned, ConsoleOk input returned c
    have preserved : ∀ {c turn c' o}, Inv c → True → consoleStep c turn = some (c', o) → Inv c' := by
      intro c turn c' o hinv _ hstep
      obtain ⟨returned, hpre⟩ := hinv
      exact ⟨_, hpre.step hstep⟩
    obtain ⟨⟨returned, hpre⟩, -, -, hstep⟩ := h.record Inv ⟨[], .init input⟩ preserved q hq
    exact exit_iff hpre hstep
  · rintro lines hlines rfl
    exact fgetsAll_unlines_iff hlines

/-- A call between two lines, and one too many. -/
theorem console_lines_interleaved :
    ∃ tr c, Exec consoleStep (fun _ _ => True) (consoleInit [97, 10, 98, 99, 10]) tr c ∧
      returnedLines (outputsOf tr) = [[97], [98, 99]] ∧ c.queue.messages.length < QUEUE_SIZE ∧
      ∃ read, fgetsAll [97, 10, 98, 99, 10] = read ++ fgetsAll c.stdin ∧
        returnedLines (outputsOf tr) ++ c.queue.messages = read.map trimmed := by
  have hrun : (execute consoleStep (fun _ _ => True) (consoleInit [97, 10, 98, 99, 10])
      [.readlineStdin, .lreadstdin, .readlineStdin, .lreadstdin, .lreadstdin]).map (fun run =>
      returnedLines (outputsOf run.1)) = some [[97], [98, 99]] := by decide +kernel
  obtain ⟨tr, c, h, hdata⟩ := exists_exec _ hrun
  obtain ⟨horder, hlt, -⟩ := console_lines [97, 10, 98, 99, 10] h
  exact ⟨tr, c, h, hdata, hlt, horder⟩

end NetgameFormal
