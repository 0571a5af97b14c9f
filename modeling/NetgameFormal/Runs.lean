import Std

/-!
# Executions of partial deterministic machines

A machine is a partial step function `σ → ι → Option (σ × List ω)`: one input
either stops the program (a failed assertion, a bad pointer, a loop that does
not end) or yields the next state and the emitted actions. Executions keep one
record per step, so that statements about histories need no extra state.
-/

set_option autoImplicit false

namespace NetgameFormal

universe u v w x y

/-- One executed step. -/
structure Record (σ : Type u) (ι : Type v) (ω : Type w) where
  pre : σ
  input : ι
  output : List ω
  post : σ

variable {σ : Type u} {ι : Type v} {ω : Type w}

/-- Finite executions of `step` from `s₀` whose inputs the environment `ok` admits. -/
inductive Exec (step : σ → ι → Option (σ × List ω)) (ok : σ → ι → Prop) (s₀ : σ) :
    List (Record σ ι ω) → σ → Prop where
  | nil : Exec step ok s₀ [] s₀
  | snoc {tr : List (Record σ ι ω)} {s s' : σ} {i : ι} {o : List ω} :
      Exec step ok s₀ tr s → ok s i → step s i = some (s', o) →
      Exec step ok s₀ (tr ++ [⟨s, i, o, s'⟩]) s'

def outputsOf (tr : List (Record σ ι ω)) : List ω := tr.flatMap Record.output

@[simp] theorem outputsOf_nil : outputsOf ([] : List (Record σ ι ω)) = [] := rfl

@[simp] theorem outputsOf_snoc (tr : List (Record σ ι ω)) (r : Record σ ι ω) :
    outputsOf (tr ++ [r]) = outputsOf tr ++ r.output := by
  simp [outputsOf]

namespace Exec
variable {step : σ → ι → Option (σ × List ω)} {ok : σ → ι → Prop} {s₀ : σ}

/-- The induction rule for invariants: one goal for the start, one for a step. -/
theorem invariant (Inv : σ → Prop) (init : Inv s₀)
    (preserved : ∀ {s i s' o}, Inv s → ok s i → step s i = some (s', o) → Inv s')
    {tr : List (Record σ ι ω)} {s : σ} (h : Exec step ok s₀ tr s) : Inv s := by
  induction h with
  | nil => exact init
  | snoc _ hok hstep ih => exact preserved ih hok hstep

/-- Every record of an execution is an admitted step between states that satisfy the invariant. -/
theorem record (Inv : σ → Prop) (init : Inv s₀)
    (preserved : ∀ {s i s' o}, Inv s → ok s i → step s i = some (s', o) → Inv s')
    {tr : List (Record σ ι ω)} {s : σ} (h : Exec step ok s₀ tr s) :
    ∀ r ∈ tr, Inv r.pre ∧ Inv r.post ∧ ok r.pre r.input ∧
      step r.pre r.input = some (r.post, r.output) := by
  induction h with
  | nil => simp
  | @snoc tr s s' i o hrun hok hstep ih =>
    intro r hr
    rcases List.mem_append.mp hr with hr | hr
    · exact ih r hr
    · rw [List.mem_singleton] at hr
      subst hr
      have hs := invariant Inv init preserved hrun
      exact ⟨hs, preserved hs hok hstep, hok, hstep⟩

theorem append {tr tr' : List (Record σ ι ω)} {s s' : σ}
    (h : Exec step ok s₀ tr s) (h' : Exec step ok s tr' s') :
    Exec step ok s₀ (tr ++ tr') s' := by
  induction h' with
  | nil => simpa using h
  | snoc _ hok hstep ih =>
    rw [← List.append_assoc]
    exact .snoc ih hok hstep

theorem split {tr tr' : List (Record σ ι ω)} {s' : σ}
    (h : Exec step ok s₀ (tr ++ tr') s') :
    ∃ s, Exec step ok s₀ tr s ∧ Exec step ok s tr' s' := by
  generalize hall : tr ++ tr' = all at h
  induction h generalizing tr' with
  | nil =>
    obtain ⟨rfl, rfl⟩ := List.append_eq_nil_iff.mp hall
    exact ⟨s₀, .nil, .nil⟩
  | @snoc tr₀ s s'' i o hrun hok hstep ih =>
    rcases List.eq_nil_or_concat tr' with rfl | ⟨front, last, rfl⟩
    · rw [List.append_nil] at hall
      exact ⟨s'', hall ▸ .snoc hrun hok hstep, .nil⟩
    · rw [List.concat_eq_append, ← List.append_assoc] at hall
      obtain ⟨hfront, hlast⟩ := List.append_inj' hall rfl
      obtain ⟨m, hm, hm'⟩ := ih hfront
      obtain rfl : last = ⟨s, i, o, s''⟩ := by simpa using hlast
      exact ⟨m, hm, by rw [List.concat_eq_append]; exact .snoc hm' hok hstep⟩

theorem eq_of_nil {s : σ} (h : Exec step ok s₀ [] s) : s = s₀ := by
  generalize hnil : ([] : List (Record σ ι ω)) = tr at h
  cases h with
  | nil => rfl
  | snoc _ _ _ => simp at hnil

theorem cons_inv {r : Record σ ι ω} {tr : List (Record σ ι ω)} {s : σ}
    (h : Exec step ok s₀ (r :: tr) s) :
    r.pre = s₀ ∧ ok s₀ r.input ∧ step s₀ r.input = some (r.post, r.output) ∧
      Exec step ok r.post tr s := by
  obtain ⟨m, hm, htr⟩ := @split _ _ _ _ _ _ [r] _ _ h
  generalize hone : [r] = one at hm
  cases hm with
  | nil => simp at hone
  | @snoc tr' s₁ _ i o hrun hok hstep =>
    have hlen := congrArg List.length hone
    simp only [List.length_singleton, List.length_append] at hlen
    obtain rfl : tr' = [] := List.length_eq_zero_iff.mp (by omega)
    obtain rfl : r = ⟨s₁, i, o, m⟩ := by simpa using hone
    have hs := eq_of_nil hrun
    subst hs
    exact ⟨rfl, hok, hstep, htr⟩

theorem cons {s s' : σ} {i : ι} {o : List ω} {tr : List (Record σ ι ω)} (hok : ok s₀ i)
    (hstep : step s₀ i = some (s', o)) (h : Exec step ok s' tr s) :
    Exec step ok s₀ (⟨s₀, i, o, s'⟩ :: tr) s :=
  append (.snoc .nil hok hstep) h

/-- A state predicate that a step keeps exactly when its input satisfies `C`
holds throughout a run exactly when all inputs do. -/
theorem always_iff (Inv P : σ → Prop) (C : σ → ι → Prop) (init : Inv s₀) (start : P s₀)
    (preserved : ∀ {s i s' o}, Inv s → ok s i → step s i = some (s', o) → Inv s')
    (exact_step : ∀ {s i s' o}, Inv s → P s → ok s i → step s i = some (s', o) →
      (P s' ↔ C s i))
    {tr : List (Record σ ι ω)} {s : σ} (h : Exec step ok s₀ tr s) :
    (∀ r ∈ tr, P r.post) ↔ ∀ r ∈ tr, C r.pre r.input := by
  have both : ((∀ r ∈ tr, P r.post) ↔ ∀ r ∈ tr, C r.pre r.input) ∧
      ((∀ r ∈ tr, P r.post) → P s) := by
    induction h with
    | nil => exact ⟨by simp, fun _ => start⟩
    | @snoc tr s s' i o hrun hok hstep ih =>
      have hinv := invariant Inv init preserved hrun
      obtain ⟨ihiff, ihlast⟩ := ih
      refine ⟨?_, fun hall => hall ⟨s, i, o, s'⟩ (by simp)⟩
      simp only [List.forall_mem_append, List.forall_mem_singleton]
      constructor
      · intro h'
        obtain ⟨hall, hlast⟩ := h'
        exact ⟨ihiff.mp hall, (exact_step hinv (ihlast hall) hok hstep).mp hlast⟩
      · intro h'
        obtain ⟨hall, hlast⟩ := h'
        have hpost := ihiff.mpr hall
        exact ⟨hpost, (exact_step hinv (ihlast hpost) hok hstep).mpr hlast⟩
  exact both.1

theorem pairwise {tr : List (Record σ ι ω)} {s : σ} (h : Exec step ok s₀ tr s) :
    tr.Pairwise fun r r' => ∃ mid, Exec step ok r.post mid r'.pre := by
  induction h with
  | nil => exact .nil
  | @snoc tr s s' i o hrun hok hstep ih =>
    rw [List.pairwise_append]
    refine ⟨ih, List.pairwise_singleton _ _, ?_⟩
    intro r hr r' hr'
    rw [List.mem_singleton] at hr'
    subst hr'
    obtain ⟨before, after, rfl⟩ := List.append_of_mem hr
    obtain ⟨m, -, hafter⟩ := split hrun
    exact ⟨after, hafter.cons_inv.2.2.2⟩

/-- When the good steps are those whose input satisfies `C`, and these keep the invariant, a run
has good steps only exactly when all its inputs satisfy `C`. -/
theorem records_iff (Inv : σ → Prop) (Good : Record σ ι ω → Prop) (C : σ → ι → Prop)
    (init : Inv s₀)
    (exact_step : ∀ {s i s' o}, Inv s → ok s i → step s i = some (s', o) →
      (Good ⟨s, i, o, s'⟩ ↔ C s i))
    (preserved : ∀ {s i s' o}, Inv s → ok s i → step s i = some (s', o) → C s i → Inv s')
    {tr : List (Record σ ι ω)} {s : σ} (h : Exec step ok s₀ tr s) :
    (∀ r ∈ tr, Good r) ↔ ∀ r ∈ tr, C r.pre r.input := by
  have both : ((∀ r ∈ tr, Good r) ↔ ∀ r ∈ tr, C r.pre r.input) ∧
      ((∀ r ∈ tr, C r.pre r.input) → Inv s) := by
    induction h with
    | nil => exact ⟨by simp, fun _ => init⟩
    | @snoc tr s s' i o hrun hok hstep ih =>
      obtain ⟨ihiff, ihinv⟩ := ih
      simp only [List.forall_mem_append, List.forall_mem_singleton]
      refine ⟨?_, fun hall => preserved (ihinv hall.1) hok hstep hall.2⟩
      constructor
      · intro hall
        have hbefore := ihiff.mp hall.1
        exact ⟨hbefore, (exact_step (ihinv hbefore) hok hstep).mp hall.2⟩
      · intro hall
        exact ⟨ihiff.mpr hall.1, (exact_step (ihinv hall.1) hok hstep).mpr hall.2⟩
  exact both.1

end Exec

/-- Runs a machine on an input sequence, as long as the environment admits it. -/
def execute (step : σ → ι → Option (σ × List ω)) (ok : σ → ι → Prop) [∀ s i, Decidable (ok s i)] :
    σ → List ι → Option (List (Record σ ι ω) × σ)
  | s, [] => some ([], s)
  | s, i :: is =>
    if ok s i then
      match step s i with
      | none => none
      | some (s', o) =>
        (execute step ok s' is).map fun rest => (⟨s, i, o, s'⟩ :: rest.1, rest.2)
    else none

theorem execute_exec {step : σ → ι → Option (σ × List ω)} {ok : σ → ι → Prop}
    [∀ s i, Decidable (ok s i)] {is : List ι} {s : σ} {run : List (Record σ ι ω) × σ}
    (h : execute step ok s is = some run) : Exec step ok s run.1 run.2 := by
  induction is generalizing s run with
  | nil =>
    obtain rfl := Option.some.inj h
    exact .nil
  | cons i is ih =>
    rw [execute] at h
    split at h
    · next hok =>
      cases hstep : step s i with
      | none => simp [hstep] at h
      | some so =>
        obtain ⟨s', o⟩ := so
        simp only [hstep, Option.map_eq_some_iff] at h
        obtain ⟨rest, hrest, rfl⟩ := h
        exact .cons hok hstep (ih hrest)
    · simp at h

theorem execute_inputs {step : σ → ι → Option (σ × List ω)} {ok : σ → ι → Prop}
    [∀ s i, Decidable (ok s i)] {is : List ι} {s : σ} {run : List (Record σ ι ω) × σ}
    (h : execute step ok s is = some run) : run.1.map Record.input = is := by
  induction is generalizing s run with
  | nil =>
    obtain rfl := Option.some.inj h
    rfl
  | cons i is ih =>
    rw [execute] at h
    split at h
    · cases hstep : step s i with
      | none => simp [hstep] at h
      | some so =>
        simp only [hstep, Option.map_eq_some_iff] at h
        obtain ⟨rest, hrest, rfl⟩ := h
        rw [List.map_cons, ih hrest]
    · simp at h

theorem exists_exec {β : Type x} {step : σ → ι → Option (σ × List ω)} {ok : σ → ι → Prop}
    [∀ s i, Decidable (ok s i)] {is : List ι} {s : σ} (f : List (Record σ ι ω) × σ → β) {y : β}
    (h : (execute step ok s is).map f = some y) :
    ∃ tr s', Exec step ok s tr s' ∧ f (tr, s') = y := by
  obtain ⟨run, hrun, hy⟩ := Option.map_eq_some_iff.mp h
  exact ⟨run.1, run.2, execute_exec hrun, hy⟩

theorem exists_exec_step {β : Type x} {step : σ → ι → Option (σ × List ω)} {ok : σ → ι → Prop}
    [∀ s i, Decidable (ok s i)] {is : List ι} {s : σ} {i : ι} (f : List ω → β) {y : β}
    (h : ((execute step ok s is).map fun run => (step run.2 i).map fun next => f next.2) =
      some (some y)) :
    ∃ tr s' s'' o, Exec step ok s tr s' ∧ step s' i = some (s'', o) ∧ f o = y := by
  obtain ⟨tr, s', hrun, hdata⟩ := exists_exec _ h
  obtain ⟨next, hstep, hy⟩ := Option.map_eq_some_iff.mp hdata
  exact ⟨tr, s', next.1, next.2, hrun, hstep, hy⟩

section Stopping
variable {step : σ → ι → Option (σ × List ω)} {upTo : σ → ι → List ω} {ok : σ → ι → Prop}
variable {s s' : σ} {i : ι} {o : List ω} {p : Option σ}

/-- A machine that also records the step in which it stops: it is then in the state `none`, and
`upTo` is what that step has emitted. -/
def stopping (step : σ → ι → Option (σ × List ω)) (upTo : σ → ι → List ω) :
    Option σ → ι → Option (Option σ × List ω)
  | none, _ => none
  | some s, i =>
    match step s i with
    | some (s', o) => some (some s', o)
    | none => some (none, upTo s i)

def running (ok : σ → ι → Prop) (p : Option σ) (i : ι) : Prop := ∀ s, p = some s → ok s i

instance [∀ s i, Decidable (ok s i)] : ∀ p i, Decidable (running ok p i)
  | none, _ => isTrue (by simp [running])
  | some s, i => decidable_of_iff (ok s i) (by simp [running])

theorem stopping_of_some (h : step s i = some (s', o)) :
    stopping step upTo (some s) i = some (some s', o) := by
  simp only [stopping, h]

theorem stopping_of_none (h : step s i = none) :
    stopping step upTo (some s) i = some (none, upTo s i) := by
  simp only [stopping, h]

/-- A recorded step is one of the machine, or the one in which it stops. -/
theorem stopping_cases {q : Option σ} (h : stopping step upTo p i = some (q, o)) :
    ∃ s, p = some s ∧
      ((∃ s', q = some s' ∧ step s i = some (s', o)) ∨
        (q = none ∧ step s i = none ∧ o = upTo s i)) := by
  cases p with
  | none => simp [stopping] at h
  | some s =>
    refine ⟨s, rfl, ?_⟩
    cases hstep : step s i with
    | none =>
      rw [stopping_of_none hstep] at h
      obtain ⟨rfl, rfl⟩ := Prod.mk.inj (Option.some.inj h)
      exact .inr ⟨rfl, rfl, rfl⟩
    | some next =>
      obtain ⟨s', o'⟩ := next
      rw [stopping_of_some hstep] at h
      obtain ⟨rfl, rfl⟩ := Prod.mk.inj (Option.some.inj h)
      exact .inl ⟨s', rfl, rfl⟩

theorem stopping_pre {q : Option σ} {tr : List (Record (Option σ) ι ω)}
    {ok : Option σ → ι → Prop} (h : Exec (stopping step upTo) ok q tr p) :
    ∀ r ∈ tr, ∃ s, r.pre = some s := by
  intro r hr
  obtain ⟨-, -, -, hrun⟩ := h.record (fun _ => True) trivial (fun _ _ _ => trivial) r hr
  obtain ⟨s, hs, -⟩ := stopping_cases hrun
  exact ⟨s, hs⟩

/-- `Exec.records_iff` for runs that may end in a step in which the machine stops. -/
theorem stopping_records_iff {s₀ : σ} (Inv : σ → Prop)
    (Good : σ → ι → List ω → Option σ → Prop) (C : σ → ι → Prop) (init : Inv s₀)
    (goes_on : ∀ {s i s' o}, Inv s → ok s i → step s i = some (s', o) →
      (Good s i o (some s') ↔ C s i))
    (stops : ∀ {s i}, Inv s → ok s i → step s i = none → (Good s i (upTo s i) none ↔ C s i))
    (preserved : ∀ {s i s' o}, Inv s → ok s i → step s i = some (s', o) → C s i → Inv s')
    {tr : List (Record (Option σ) ι ω)}
    (h : Exec (stopping step upTo) (running ok) (some s₀) tr p) :
    (∀ r ∈ tr, ∀ s, r.pre = some s → Good s r.input r.output r.post) ↔
      ∀ r ∈ tr, ∀ s, r.pre = some s → C s r.input := by
  apply h.records_iff (fun p => ∀ s, p = some s → Inv s)
    (fun r => ∀ s, r.pre = some s → Good s r.input r.output r.post)
    (fun p i => ∀ s, p = some s → C s i)
  · intro s hs
    obtain rfl := Option.some.inj hs
    exact init
  · intro p i q o hinv hok hrun
    obtain ⟨s, rfl, hcases⟩ := stopping_cases hrun
    have hs := hinv s rfl
    have hi := hok s rfl
    simp only [Option.some.injEq, forall_eq']
    rcases hcases with ⟨s', rfl, hstep⟩ | ⟨rfl, hstep, rfl⟩
    · exact goes_on hs hi hstep
    · exact stops hs hi hstep
  · intro p i q o hinv hok hrun hcond
    obtain ⟨s, rfl, hcases⟩ := stopping_cases hrun
    rcases hcases with ⟨s', rfl, hstep⟩ | ⟨rfl, -, -⟩
    · intro s'' hs''
      obtain rfl := Option.some.inj hs''
      exact preserved (hinv s rfl) (hok s rfl) hstep (hcond s rfl)
    · simp

end Stopping

/-- Everything a machine emits on an input sequence, up to the point where it stops. -/
def emitted (step : σ → ι → Option (σ × List ω)) : σ → List ι → List ω
  | _, [] => []
  | s, i :: is =>
    match step s i with
    | none => []
    | some (s', o) => o ++ emitted step s' is

/-- `P` holds at every step the machine attempts on an input sequence. -/
def Along (P : σ → ι → Prop) (step : σ → ι → Option (σ × List ω)) : σ → List ι → Prop
  | _, [] => True
  | s, i :: is => P s i ∧ ∀ s' o, step s i = some (s', o) → Along P step s' is

theorem along_of_execute {step : σ → ι → Option (σ × List ω)} {ok : σ → ι → Prop}
    [∀ s i, Decidable (ok s i)] {is : List ι} {s : σ}
    (h : (execute step ok s is).isSome = true) : Along ok step s is := by
  induction is generalizing s with
  | nil => trivial
  | cons i is ih =>
    rw [execute] at h
    split at h
    · next hok =>
      refine ⟨hok, ?_⟩
      intro s' o hstep
      simp only [hstep, Option.isSome_map] at h
      exact ih h
    · simp at h

section Lockstep
variable {τ : Type x} {κ : Type y}
variable {step : σ → ι → Option (σ × List ω)} {step' : τ → ι → Option (τ × List ω)}

/-- One lockstep: both machines stop, or both move on, related again when the
step is `good` and visibly different from the first visible action on when it is not. -/
structure LockstepAt (R : σ → τ → Prop) (visible : List ω → List κ) (good : Prop)
    (a : Option (σ × List ω)) (b : Option (τ × List ω)) : Prop where
  stops : a = none ↔ b = none
  agrees : ∀ {s o t o'}, a = some (s, o) → b = some (t, o') → good →
    visible o = visible o' ∧ R s t
  differs : ∀ {s o t o'}, a = some (s, o) → b = some (t, o') → ¬ good →
    ∃ k k' ks ks', visible o = k :: ks ∧ visible o' = k' :: ks' ∧ k ≠ k'

/-- Two machines in lockstep show the same behaviour on exactly the input
sequences all of whose attempted steps are good. -/
theorem emitted_eq_iff_along (R : σ → τ → Prop) (visible : List ω → List κ)
    (visible_append : ∀ o o', visible (o ++ o') = visible o ++ visible o')
    (ok good : σ → ι → Prop)
    (lockstep : ∀ {s t i}, R s t → ok s i →
      LockstepAt R visible (good s i) (step s i) (step' t i))
    (is : List ι) {s : σ} {t : τ} (hR : R s t) (hok : Along ok step s is)
    (hgood : ∀ {s t i}, R s t → ok s i → step s i = none → good s i) :
    visible (emitted step s is) = visible (emitted step' t is) ↔ Along good step s is := by
  induction is generalizing s t with
  | nil => simp [emitted, Along]
  | cons i is ih =>
    obtain ⟨hi, hrest⟩ := hok
    have hlock := lockstep hR hi
    cases hs : step s i with
    | none =>
      have ht := hlock.stops.mp hs
      simp only [emitted, hs, ht, Along, true_iff, reduceCtorEq, false_implies, implies_true,
        and_true]
      exact hgood hR hi hs
    | some so =>
      obtain ⟨s', o⟩ := so
      cases ht : step' t i with
      | none => exact absurd (hlock.stops.mpr ht) (by simp [hs])
      | some result =>
        obtain ⟨t', o'⟩ := result
        simp only [emitted, hs, ht, visible_append, Along, Option.some.injEq, Prod.mk.injEq]
        by_cases hg : good s i
        · obtain ⟨hvis, hR'⟩ := hlock.agrees hs ht hg
          rw [hvis, List.append_cancel_left_eq, ih hR' (hrest s' o hs)]
          constructor
          · rintro h
            refine ⟨hg, ?_⟩
            rintro _ _ ⟨rfl, rfl⟩
            exact h
          · exact fun h => h.2 s' o ⟨rfl, rfl⟩
        · obtain ⟨k, k', ks, ks', hk, hk', hne⟩ := hlock.differs hs ht hg
          rw [hk, hk']
          simp [hne, hg]

end Lockstep

end NetgameFormal
