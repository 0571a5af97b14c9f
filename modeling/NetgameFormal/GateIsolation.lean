import NetgameFormal.Reception

/-!
# Connections do not disturb each other

What the gateway does with the bytes of a connection is a function of these
bytes alone, and of whether there is a server at the time. The function is
written down as a machine that knows a single connection; the pool and the table
that all connections share do not occur in it.
-/

set_option autoImplicit false

namespace NetgameFormal

/-- Frames handed to the two handlers, and close requests. -/
def Act.ofStream : Act → Bool
  | .handshake _ _ => true
  | .handlemsg _ _ => true
  | .close _ => true
  | _ => false

/-- The role and the databuffer of connection `c`, in the slot where the table finds it. -/
def Gate.recordOf (g : Gate) (c : Int) : Option RefConn :=
  match hashidLookup g.hash c with
  | none => none
  | some slot => if slot ≥ 0 then some (g.view slot.toNat) else none

/-- The chunk of connection `c` a step handles, and whether there is a server before it. -/
def ownChunk (c : Int) (r : Record Gate GateInput Act) : Option (List Byte × Bool) :=
  match r.input.msg with
  | .data id data => if id = c then some (data, decide (0 < r.pre.sid)) else none
  | _ => none

/-- What can be seen of connection `c` in a step that handles a chunk of it. -/
def observed (c : Int) (r : Record Gate GateInput Act) : Option (List Act × Option RefConn) :=
  match r.input.msg with
  | .data id _ => if id = c then some (r.output.filter Act.ofStream, r.post.recordOf c) else none
  | _ => none

/-- The record `r` accepts connection `c` into the table, and no record of `mid` removes it. -/
structure Lives (c : Int) (r : Record Gate GateInput Act) (mid : List (Record Gate GateInput Act)) :
    Prop where
  accepted : ∃ l, r.input.msg = .accept l c
  started : .start c ∈ r.output
  stays : ∀ q ∈ mid, q.input.msg ≠ .close c ∧ q.input.msg ≠ .error c

def soloStep (md5 : HandshakeMd5) (c : Int) (v : RefConn) (chunk : List Byte × Bool) : Effect :=
  v.message md5 (fun _ => false) (if chunk.2 then 1 else 0) c chunk.1 0

def soloRun (md5 : HandshakeMd5) (c : Int) :
    RefConn → List (List Byte × Bool) → List (List Act × Option RefConn)
  | _, [] => []
  | v, chunk :: chunks =>
    let e := soloStep md5 c v chunk
    (e.acts.filter Act.ofStream, some e.conn) :: soloRun md5 c e.conn chunks

variable {md5 : HandshakeMd5} {g g' : Gate} {c : Int} {a : Nat}

theorem gateSocketSend_ofStream (site : SendSite) (id : Int) (buffer : List Byte) (wsz : Int) :
    (gateSocketSend site id buffer wsz).2.filter Act.ofStream = [] := by
  unfold gateSocketSend
  split <;> rfl

structure Outcome.Alike (o o' : Outcome) : Prop where
  connTp : o.connTp = o'.connTp
  clears : o.clears = o'.clears
  acts : o.acts.filter Act.ofStream = o'.acts.filter Act.ofStream

theorem Outcome.Alike.refl (o : Outcome) : o.Alike o := ⟨rfl, rfl, rfl⟩

theorem refHandshake_alike (md5 : HandshakeMd5) (tp : ConnTp) {sid sid' : Int} (id : Int)
    (frame : List Byte) (hsid : 0 < sid ↔ 0 < sid') :
    (refHandshake md5 tp sid id frame).Alike (refHandshake md5 tp sid' id frame) := by
  unfold refHandshake
  split
  · exact ⟨rfl, rfl, rfl⟩
  split
  · by_cases hpos : 0 < sid
    · rw [if_pos hpos, if_pos (hsid.mp hpos)]
      exact ⟨rfl, rfl, rfl⟩
    · rw [if_neg hpos, if_neg fun hpos' => hpos (hsid.mpr hpos')]
      exact .refl _
  split
  · exact ⟨rfl, rfl, rfl⟩
  · exact ⟨rfl, rfl, rfl⟩

theorem refHandlemsg_alike (tp : ConnTp) {sid sid' : Int} (id : Int) (routes routes' : Bool)
    (frame : List Byte) (wsz wsz' : Int) (hsid : 0 < sid ↔ 0 < sid') :
    (refHandlemsg tp sid id routes frame wsz).Alike
      (refHandlemsg tp sid' id routes' frame wsz') := by
  cases tp with
  | zero => exact ⟨rfl, rfl, rfl⟩
  | debug => exact ⟨rfl, rfl, rfl⟩
  | client =>
    unfold refHandlemsg
    by_cases hpos : 0 < sid
    · simp only [gt_iff_lt, hpos, hsid.mp hpos, if_true]
      exact ⟨rfl, rfl, by simp only [gateSocketSend_ofStream]⟩
    · have hpos' : ¬ 0 < sid' := fun hpos' => hpos (hsid.mpr hpos')
      simp only [gt_iff_lt, hpos, hpos', if_false]
      exact ⟨rfl, rfl, rfl⟩
  | server =>
    have hquiet : ∀ routes sid wsz,
        (refHandlemsg .server sid id routes frame wsz).clears = false ∧
          (refHandlemsg .server sid id routes frame wsz).acts.filter Act.ofStream = [] := by
      intro routes sid wsz
      cases routes with
      | true => exact ⟨rfl, gateSocketSend_ofStream ..⟩
      | false =>
        refine ⟨rfl, ?_⟩
        simp only [refHandlemsg, Bool.false_eq_true, if_false, List.cons_append, List.filter_cons,
          Act.ofStream, List.filter_append, gateSocketSend_ofStream, List.nil_append]
        split <;> rfl
    obtain ⟨hclears, hacts⟩ := hquiet routes sid wsz
    obtain ⟨hclears', hacts'⟩ := hquiet routes' sid' wsz'
    exact ⟨by simp, hclears.trans hclears'.symm, hacts.trans hacts'.symm⟩

theorem refFrame_alike (md5 : HandshakeMd5) (tp : ConnTp) {sid sid' : Int} (id : Int)
    (routes routes' : Bool) (frame : List Byte) (wsz wsz' : Int) (hsid : 0 < sid ↔ 0 < sid') :
    (refFrame md5 tp sid id routes frame wsz).Alike
      (refFrame md5 tp sid' id routes' frame wsz') := by
  unfold refFrame
  split
  · obtain ⟨htp, hclears, hacts⟩ := refHandshake_alike md5 tp id frame hsid
    exact ⟨htp, hclears, by simp only [List.filter_cons, Act.ofStream, hacts]⟩
  · obtain ⟨htp, hclears, hacts⟩ := refHandlemsg_alike tp id routes routes' frame wsz wsz' hsid
    exact ⟨htp, hclears, by simp only [List.filter_cons, Act.ofStream, hacts]⟩

theorem Outcome.Alike.allActs {o o' : Outcome} (h : o.Alike o') :
    o.allActs.filter Act.ofStream = o'.allActs.filter Act.ofStream := by
  have hfree : ∀ o : Outcome, o.allActs.filter Act.ofStream = o.acts.filter Act.ofStream := by
    intro o
    simp only [Outcome.allActs, List.cons_append, List.filter_cons, List.filter_append,
      Act.ofStream, Bool.false_eq_true, if_false]
    split
    · simp
    · simp [Act.ofStream]
  rw [hfree o, hfree o', h.acts]

theorem message_eq_solo (routes : Int → Bool) (sid wsz : Int) (v : RefConn) (data : List Byte) :
    (v.message md5 routes sid c data wsz).conn =
        (soloStep md5 c v (data, decide (0 < sid))).conn ∧
      (v.message md5 routes sid c data wsz).acts.filter Act.ofStream =
        (soloStep md5 c v (data, decide (0 < sid))).acts.filter Act.ofStream := by
  rw [soloStep]
  rcases htake : v.take data with ⟨receiver, _ | frame⟩
  · rw [RefConn.message_none htake, RefConn.message_none htake]
    exact ⟨rfl, rfl⟩
  · rw [RefConn.message_some htake, RefConn.message_some htake]
    have hsid : 0 < sid ↔ (0 : Int) < if decide (0 < sid) = true then 1 else 0 := by
      by_cases hpos : 0 < sid
      · simp [hpos]
      · simp [hpos]
    have halike := refFrame_alike md5 v.connTp c (routes (readBlock frame 2)) false frame wsz 0 hsid
    simp only
    rw [halike.connTp, halike.clears, halike.allActs]
    exact ⟨rfl, rfl⟩

theorem recordOf_eq (hok : GateOk g) (ha : g.hash.Holds c a) : g.recordOf c = some (g.view a) := by
  simp [Gate.recordOf, hok.hash.lookup_of_holds ha]

/-- The run lemma: all that can be seen of `c` is what the machine for `c` alone shows. -/
theorem observed_eq_soloRun {g₀ : Gate} (hok : GateOk g₀) (ha : g₀.hash.Holds c a)
    {mid : List (Record Gate GateInput Act)}
    (h : Exec (dispatchSocketMessage md5) FreshAccept g₀ mid g)
    (hstays : ∀ q ∈ mid, q.input.msg ≠ .close c ∧ q.input.msg ≠ .error c) :
    mid.filterMap (observed c) = soloRun md5 c (g₀.view a) (mid.filterMap (ownChunk c)) := by
  induction mid generalizing g₀ with
  | nil => rfl
  | cons r mid ih =>
    obtain ⟨hpre, hfresh, hrun, hrest⟩ := h.cons_inv
    have hstep := dispatch_step hok hfresh hrun
    obtain ⟨hclose, herror⟩ := hstays r List.mem_cons_self
    have hlater := fun q hq => hstays q (List.mem_cons_of_mem r hq)
    have hok' := hstep.ok hok
    by_cases hdata : ∃ data, r.input.msg = .data c data
    · obtain ⟨data, hdata⟩ := hdata
      obtain ⟨pre, ⟨msg, wsz⟩, o, post⟩ := r
      obtain rfl : msg = .data c data := hdata
      obtain rfl : pre = g₀ := hpre
      rcases hstep.data_inv with ⟨b, hb, hw, -, rfl⟩ | ⟨habsent, -⟩
      · obtain rfl := hok.hash.distinct hb ha
        have ha' : post.hash.Holds c b := hw.hash ▸ hb
        obtain ⟨hconn, hacts⟩ :=
          @message_eq_solo md5 c pre.routes pre.sid wsz (pre.view b) data
        have hrest := ih hok' ha' hrest hlater
        rw [hw.here, hconn] at hrest
        simp only [List.filterMap_cons, observed, ownChunk, if_true, soloRun, hrest,
          recordOf_eq hok' ha', hw.here, hconn, hacts]
      · exact absurd ha (habsent a)
    · have hother : ∀ data, r.input.msg ≠ .data c data := fun data heq => hdata ⟨data, heq⟩
      obtain ⟨ha', hview⟩ := hstep.frame ha hother hclose herror
      have hnone : observed c r = none ∧ ownChunk c r = none := by
        unfold observed ownChunk
        cases hmsg : r.input.msg with
        | data id data =>
          have hne : id ≠ c := by
            intro heq
            exact hother data (by rw [hmsg, heq])
          simp [hne]
        | connect id => simp
        | close id => simp
        | error id => simp
        | accept id ud => simp
      rw [List.filterMap_cons_none hnone.1, List.filterMap_cons_none hnone.2,
        ih hok' ha' hrest hlater, hview]

theorem Lives.slot {max : Capacity} {listenId : Int} {front mid : List (Record Gate GateInput Act)}
    {r : Record Gate GateInput Act} (hc : Lives c r mid)
    (h : Exec (dispatchSocketMessage md5) FreshAccept (gateInit max listenId) (front ++ r :: mid) g) :
    ∃ a, GateOk r.post ∧ r.post.hash.Holds c a ∧ r.post.view a = .fresh ∧
      Exec (dispatchSocketMessage md5) FreshAccept r.post mid g := by
  obtain ⟨s, hfront, hback⟩ := h.split
  obtain ⟨-, hfresh, hrun, hmid⟩ := hback.cons_inv
  have hok := gate_invariant hfront
  have hstep := dispatch_step hok hfresh hrun
  have hok' := hstep.ok hok
  obtain ⟨l, haccept⟩ := hc.accepted
  have hstart := hc.started
  obtain ⟨pre, ⟨msg, wsz⟩, o, post⟩ := r
  obtain rfl : msg = .accept l c := haccept
  have hstep : GateStep md5 s ⟨.accept l c, wsz⟩ post o := hstep
  generalize hi : (⟨.accept l c, wsz⟩ : GateInput) = i at hstep
  cases hstep with
  | @accept ud _ a _ hroom hpos habsent hfree hr hsid =>
    simp only [GateInput.mk.injEq, GateMessage.accept.injEq] at hi
    obtain ⟨⟨-, rfl⟩, -⟩ := hi
    exact ⟨a, hok', hr.holds_self (by omega), hr.here, hmid⟩
  | refuse hfull => simp at hstart
  | remove hmsg ha hr hsid => simp at hstart
  | gone hmsg habsent => simp at hstart
  | message ha hw hsid => simp at hi
  | unknown habsent => simp at hi
  | connect hknown => simp at hi
  | stranger hlisten habsent => simp at hi

/-- Two runs that bring a connection the same chunks, with or without a server at the same chunks,
handle them alike, whatever else happens in them. -/
theorem streams_isolated {max max' : Capacity} {listenId listenId' : Int}
    {front mid front' mid' : List (Record Gate GateInput Act)} {r r' : Record Gate GateInput Act}
    {g g' : Gate}
    (h : Exec (dispatchSocketMessage md5) FreshAccept (gateInit max listenId) (front ++ r :: mid) g)
    (h' : Exec (dispatchSocketMessage md5) FreshAccept (gateInit max' listenId')
      (front' ++ r' :: mid') g')
    (hc : Lives c r mid) (hc' : Lives c r' mid')
    (hchunks : mid.filterMap (ownChunk c) = mid'.filterMap (ownChunk c)) :
    mid.filterMap (observed c) = mid'.filterMap (observed c) := by
  obtain ⟨a, hok, ha, hfresh, hrun⟩ := hc.slot h
  obtain ⟨a', hok', ha', hfresh', hrun'⟩ := hc'.slot h'
  rw [observed_eq_soloRun hok ha hrun hc.stays, observed_eq_soloRun hok' ha' hrun' hc'.stays,
    hfresh, hfresh', hchunks]

theorem streams_isolated_pair :
    ∃ front r mid front' r' mid' g g',
      Exec (dispatchSocketMessage gatewayMd5) FreshAccept (gateInit ⟨2, by decide⟩ 7) (front ++ r :: mid) g ∧
      Exec (dispatchSocketMessage gatewayMd5) FreshAccept (gateInit ⟨4, by decide⟩ 8) (front' ++ r' :: mid') g' ∧
      front'.length = 2 ∧ (mid.filterMap (ownChunk 5)).length = 2 ∧
      mid.filterMap (observed 5) = mid'.filterMap (observed 5) := by
  let hello := handshakePackage 3 gatewayMd5.client
  let chunks := [(hello, false), (package 0 1 [8, 9], false)]
  let enters := fun (r : Record Gate GateInput Act) (mid : List (Record Gate GateInput Act)) l =>
    decide (r.input.msg = .accept l 5) && decide (r.output = [.start 5]) &&
      decide (∀ q ∈ mid, q.input.msg ≠ .close 5 ∧ q.input.msg ≠ .error 5) &&
      decide (mid.filterMap (ownChunk 5) = chunks)
  have hrun : (execute (dispatchSocketMessage gatewayMd5) FreshAccept (gateInit ⟨2, by decide⟩ 7)
      [⟨.accept 7 5, 0⟩, ⟨.data 5 hello, 0⟩, ⟨.data 5 (package 0 1 [8, 9]), 0⟩]).map (fun run =>
        run.1.head?.any fun r => enters r run.1.tail 7) = some true := by decide +kernel
  have hrun' : (execute (dispatchSocketMessage gatewayMd5) FreshAccept (gateInit ⟨4, by decide⟩ 8)
      [⟨.accept 8 9, 0⟩, ⟨.data 9 [0, 9, 1], 0⟩, ⟨.accept 8 5, 0⟩, ⟨.data 5 hello, 0⟩,
        ⟨.close 9, 0⟩, ⟨.data 5 (package 0 1 [8, 9]), 0⟩]).map (fun run =>
        (run.1.drop 2).head?.any fun r => enters r (run.1.drop 3) 8) = some true := by
    decide +kernel
  obtain ⟨tr, g, h, hdata⟩ := exists_exec _ hrun
  obtain ⟨tr', g', h', hdata'⟩ := exists_exec _ hrun'
  have hlives : ∀ {r mid l}, enters r mid l = true →
      Lives 5 r mid ∧ mid.filterMap (ownChunk 5) = chunks := by
    intro r mid l henters
    simp only [enters, Bool.and_eq_true, decide_eq_true_eq] at henters
    obtain ⟨⟨⟨haccept, hstart⟩, hstays⟩, hchunks⟩ := henters
    exact ⟨⟨⟨l, haccept⟩, by simp [hstart], hstays⟩, hchunks⟩
  rcases tr with _ | ⟨r, mid⟩
  · exact absurd hdata (by simp)
  rcases tr' with _ | ⟨r₁, _ | ⟨r₂, _ | ⟨r', mid'⟩⟩⟩
  · exact absurd hdata' (by simp)
  · exact absurd hdata' (by simp)
  · exact absurd hdata' (by simp)
  obtain ⟨hc, hchunks⟩ := hlives (show enters r mid 7 = true from hdata)
  obtain ⟨hc', hchunks'⟩ := hlives (show enters r' mid' 8 = true from hdata')
  refine ⟨[], r, mid, [r₁, r₂], r', mid', g, g', h, h', rfl, by simp [hchunks, chunks], ?_⟩
  exact @streams_isolated _ _ _ _ _ _ [] mid [r₁, r₂] mid' r r' g g' h h' hc hc'
    (hchunks.trans hchunks'.symm)

end NetgameFormal
