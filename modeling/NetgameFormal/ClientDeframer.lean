import NetgameFormal.ConsoleClient
import NetgameFormal.Framing

/-!
# Packages out of pieces

`recv_package` is called with what the last call left over, until it returns
nil; then the loop reads the keyboard and starts again. It looks for a package
before it receives and once more behind the bytes it has received, so that a
call that returns nil leaves no whole package, however the stream was cut.
-/

set_option autoImplicit false

namespace NetgameFormal

open Framing (Frame stream)

/-- The results of the first `n` calls of `recv_package`, what the last one leaves over, and what
is still to arrive. -/
def recvCalls : Nat → LuaString → Incoming →
    Option (List (Option LuaString) × LuaString × Incoming)
  | 0, last, incoming => some ([], last, incoming)
  | n + 1, last, incoming => do
    let (results, last, incoming) ← recvCalls n last incoming
    let (result, last, incoming) ← recvPackage last incoming
    some (results ++ [result], last, incoming)

def whole (fs : List (Frame beNat)) (incoming rest : Incoming) : List LuaString :=
  (Framing.arrived fs ((arrived incoming).length - (arrived rest).length)).map Frame.payload

/-- What `n` calls make of the frames `fs`. A result nil ends a drain. -/
structure Deframes (fs : List (Frame beNat)) (incoming : Incoming) (n : Nat)
    (results : List (Option LuaString)) (last : LuaString) (rest : Incoming) : Prop where
  suffix : rest <:+ incoming
  not_early : results.filterMap id <+: whole fs incoming rest
  same_drain : results.getLast? = some none → results.filterMap id = whole fs incoming rest
  exhausted : results.getLast? = some none → arrived rest = [] →
    results.filterMap id = fs.map Frame.payload ∧ last = []
  complete : incoming.length + fs.length ≤ n →
    results.filterMap id = fs.map Frame.payload ∧ last = [] ∧ rest = []

/-! ## One call -/

section Call

variable {fs : List (Frame beNat)} {last : LuaString} {incoming : Incoming}

theorem frame_packaged (f : Frame beNat) : Packaged f.bytes where
  header := Nat.le_add_left _ _
  size := by
    rw [Framing.Frame.bytes_length, ← f.declared]
    rfl

theorem unpackPackage_bytes (f : Frame beNat) (rest : LuaString) :
    unpackPackage (f.bytes ++ rest) = (some f.payload, rest) := by
  have hlength : (f.bytes ++ rest).length = f.payload.length + 2 + rest.length := by
    rw [List.length_append, Framing.Frame.bytes_length]
  have hdeclared : beNat ((f.bytes ++ rest).getD 0 0#8) ((f.bytes ++ rest).getD 1 0#8)
      = f.payload.length := f.declared
  have htake : ((f.bytes ++ rest).drop 2).take f.payload.length = f.payload := List.take_left
  have hdrop : (f.bytes ++ rest).drop (2 + f.payload.length) = rest := by
    rw [Nat.add_comm, ← Framing.Frame.bytes_length]
    exact List.drop_left
  unfold unpackPackage
  rw [hdeclared]
  have hshort : ¬ (f.bytes ++ rest).length < 2 := by omega
  have hpart : ¬ (f.bytes ++ rest).length < f.payload.length + 2 := by omega
  simp only [hshort, hpart, if_false, htake, hdrop]

theorem unpackPackage_stream {text later : LuaString} (hsplit : text ++ later = stream fs) :
    (∃ f fs' text', fs = f :: fs' ∧ text' ++ later = stream fs' ∧
      unpackPackage text = (some f.payload, text')) ∨
    (Framing.arrived fs text.length = [] ∧ unpackPackage text = (none, text)) := by
  cases fs with
  | nil =>
    right
    obtain ⟨rfl, -⟩ := List.append_eq_nil_iff.mp hsplit
    exact ⟨rfl, rfl⟩
  | cons f fs' =>
    have htext : text <+: stream (f :: fs') := ⟨later, hsplit⟩
    have hframe : f.bytes <+: stream (f :: fs') := ⟨stream fs', rfl⟩
    by_cases hwhole : f.bytes.length ≤ text.length
    · left
      obtain ⟨text', rfl⟩ : f.bytes <+: text :=
        List.prefix_of_prefix_length_le hframe htext hwhole
      refine ⟨f, fs', text', rfl, ?_, unpackPackage_bytes f text'⟩
      rw [List.append_assoc, Framing.stream_cons] at hsplit
      exact List.append_cancel_left hsplit
    · right
      obtain ⟨rest, hrest⟩ : text <+: f.bytes :=
        List.prefix_of_prefix_length_le htext hframe (Nat.le_of_not_le hwhole)
      refine ⟨if_neg hwhole, unpackPackage_part (frame_packaged f) hrest ?_⟩
      rintro rfl
      rw [List.append_nil] at hrest
      exact hwhole (hrest ▸ Nat.le_refl _)

theorem recvPackage_stream (hpieces : some [] ∉ incoming)
    (hsplit : last ++ arrived incoming = stream fs) :
    ∃ result last' rest, recvPackage last incoming = some (result, last', rest) ∧
      rest <:+ incoming ∧
      ((∃ f fs', fs = f :: fs' ∧ result = some f.payload ∧
          last' ++ arrived rest = stream fs') ∨
        (result = none ∧ last' ++ arrived rest = stream fs ∧
          Framing.arrived fs last'.length = [] ∧
          (rest.length < incoming.length ∨ rest = [] ∧ fs = []))) := by
  unfold recvPackage
  rcases unpackPackage_stream hsplit with ⟨f, fs', text, rfl, hlater, hunpack⟩ | ⟨hnone, hunpack⟩
  · rw [hunpack]
    exact ⟨_, _, _, rfl, List.suffix_rfl, .inl ⟨f, fs', rfl, rfl, hlater⟩⟩
  · rw [hunpack]
    cases incoming with
    | nil =>
      refine ⟨none, last, [], rfl, List.suffix_rfl, .inr ⟨rfl, hsplit, hnone, .inr ⟨rfl, ?_⟩⟩⟩
      have hlast : last = stream fs := (List.append_nil last).symm.trans hsplit
      rw [hlast, Framing.arrived_stream] at hnone
      exact hnone
    | cons piece incoming =>
      have hsuffix : incoming <:+ piece :: incoming := List.suffix_cons _ _
      have hlt : incoming.length < (piece :: incoming).length := Nat.lt_succ_self _
      cases piece with
      | none => exact ⟨_, _, _, rfl, hsuffix, .inr ⟨rfl, hsplit, hnone, .inl hlt⟩⟩
      | some r =>
        have hr : r ≠ [] := fun h => hpieces (h ▸ List.mem_cons_self)
        have hsplit' : (last ++ r) ++ arrived incoming = stream fs := by
          rw [← hsplit, List.append_assoc]
          rfl
        simp only [hr, if_false]
        rcases unpackPackage_stream hsplit' with
          ⟨f, fs', text, rfl, hlater, hagain⟩ | ⟨hnone', hagain⟩
        · rw [hagain]
          exact ⟨_, _, _, rfl, hsuffix, .inl ⟨f, fs', rfl, rfl, hlater⟩⟩
        · rw [hagain]
          exact ⟨_, _, _, rfl, hsuffix, .inr ⟨rfl, hsplit', hnone', .inl hlt⟩⟩

end Call

/-! ## Many calls -/

section Calls

variable {fs : List (Frame beNat)} {incoming : Incoming}

theorem recvCalls_stream (hpieces : some [] ∉ incoming) (hstream : arrived incoming = stream fs)
    (n : Nat) : ∃ results last rest done later,
      recvCalls n [] incoming = some (results, last, rest) ∧ rest <:+ incoming ∧
      fs = done ++ later ∧ results.filterMap id = done.map Frame.payload ∧
      last ++ arrived rest = stream later ∧
      (results.getLast? = some none → Framing.arrived later last.length = []) ∧
      rest.length + later.length ≤ incoming.length + fs.length - n := by
  induction n with
  | zero =>
    exact ⟨[], [], incoming, [], fs, rfl, List.suffix_rfl, rfl, rfl, hstream, nofun,
      Nat.le_refl _⟩
  | succ n ih =>
    obtain ⟨results, last, rest, done, later, hcalls, hsuffix, rfl, hresults, hsplit, -,
      hcount⟩ := ih
    have hpieces' : some [] ∉ rest := fun h => hpieces (hsuffix.subset h)
    obtain ⟨result, last', rest', hcall, hsuffix', hcases⟩ := recvPackage_stream hpieces' hsplit
    have hle : rest'.length ≤ rest.length := hsuffix'.length_le
    have hrun : recvCalls (n + 1) [] incoming = some (results ++ [result], last', rest') := by
      simp only [recvCalls, hcalls, Option.bind_eq_bind, Option.bind_some, hcall]
    rcases hcases with ⟨f, later', rfl, rfl, hsplit'⟩ | ⟨rfl, hsplit', hnone, hshorter⟩
    · refine ⟨_, last', rest', done ++ [f], later', hrun, hsuffix'.trans hsuffix, ?_, ?_,
        hsplit', ?_, ?_⟩
      · rw [List.append_assoc]
        rfl
      · rw [List.filterMap_append, hresults, List.map_append]
        rfl
      · intro hlast
        rw [List.getLast?_concat] at hlast
        cases hlast
      · rw [List.length_cons] at hcount
        omega
    · refine ⟨_, last', rest', done, later, hrun, hsuffix'.trans hsuffix, rfl, ?_, hsplit',
        fun _ => hnone, ?_⟩
      · rw [List.filterMap_append, hresults]
        exact List.append_nil _
      · rcases hshorter with hlt | ⟨rfl, rfl⟩
        · omega
        · exact Nat.zero_le _

/-- The frames come out in order, each in the drain in which its last byte is received. -/
theorem recvCalls_deframes (hpieces : some [] ∉ incoming) (hstream : arrived incoming = stream fs)
    (n : Nat) : ∃ results last rest, recvCalls n [] incoming = some (results, last, rest) ∧
      Deframes fs incoming n results last rest := by
  obtain ⟨results, last, rest, done, later, hcalls, hsuffix, rfl, hresults, hsplit, hnone,
    hcount⟩ := recvCalls_stream hpieces hstream n
  have hreceived : (arrived incoming).length - (arrived rest).length
      = (stream done).length + last.length := by
    have hlength := congrArg List.length hsplit
    rw [List.length_append] at hlength
    rw [hstream, Framing.stream_append, List.length_append, ← hlength]
    omega
  have hwhole : whole (done ++ later) incoming rest
      = done.map Frame.payload ++ (Framing.arrived later last.length).map Frame.payload := by
    rw [whole, hreceived, Framing.arrived_append _ _ (Nat.le_add_right _ _), List.map_append,
      Nat.add_sub_cancel_left]
  refine ⟨results, last, rest, hcalls, hsuffix, ?_, ?_, ?_, ?_⟩
  · rw [hresults, hwhole]
    exact List.prefix_append _ _
  · intro hlast
    rw [hresults, hwhole, hnone hlast]
    exact (List.append_nil _).symm
  · intro hlast hrest
    rw [hrest, List.append_nil] at hsplit
    have hlater := hnone hlast
    rw [hsplit, Framing.arrived_stream] at hlater
    subst hlater
    rw [List.append_nil]
    exact ⟨hresults, hsplit⟩
  · intro hn
    have hrest : rest = [] := List.length_eq_zero_iff.mp (by omega)
    have hlater : later = [] := List.length_eq_zero_iff.mp (by omega)
    subst hrest hlater
    rw [List.append_nil]
    refine ⟨hresults, ?_, rfl⟩
    exact (List.append_nil last).symm.trans hsplit

theorem recvCalls_deframes_cut :
    ∃ results last rest,
      recvCalls 6 [] [some [0#8], none, some [0#8, 0#8], some [2#8, 7#8], some [8#8]]
        = some (results, last, rest) ∧
      Deframes [⟨0#8, 0#8, [], rfl⟩, ⟨0#8, 2#8, [7#8, 8#8], rfl⟩]
        [some [0#8], none, some [0#8, 0#8], some [2#8, 7#8], some [8#8]] 6 results last rest :=
  recvCalls_deframes (by decide) (by decide) 6

end Calls

end NetgameFormal
