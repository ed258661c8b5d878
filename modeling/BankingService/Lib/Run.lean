/-
  File:      BankingService/Lib/Run.lean
  Subject:   RUNS OF A PARTIAL STEP FUNCTION, their labels, and the two rules every result over
             runs is proved with.

  A system is a function `step : σ → α → Option σ`: the state after one action, `none` when the
  action is not enabled there. Nothing here names a particular system.

  * `run` -- the state after a list of actions; `run_append`, `run_snoc` cut it.
  * `labels` -- the visible events of a run, in order (`label s a` is `none` on a silent step).
  * `run_induction` -- induction on the last action of a run.
  * `run_inv` -- the INVARIANT rule: what one step keeps, a run keeps.
  * `steps` -- the actions of a run, each with the state it is taken in; `steps_inv`,
    `run_inv_steps` -- the invariant rule where a step keeps the invariant under a condition on the
    step.
  * `exists_run_to_rest` -- the PROGRESS rule: steps that lower a measure come to rest;
    `run_length_le` -- the TERMINATION rule: there are no more of them than the measure.
  * `run_refines` -- the SIMULATION rule: if a silent step leaves the abstract state alone and a
    visible one is the abstract step of its label, then the labels are a run of the abstract
    system, from the abstract start to the abstract end.
-/
import Mathlib.Data.List.Induction

namespace BankingService.Lib

variable {σ τ α ε : Type}

/-! ## 1. Runs -/

/-- The state after a list of actions, `none` as soon as one of them is not enabled. -/
def run (step : σ → α → Option σ) : σ → List α → Option σ
  | s, [] => some s
  | s, a :: as => (step s a).bind fun s' => run step s' as

section Run

variable {step : σ → α → Option σ}

@[simp] theorem run_nil (s : σ) : run step s [] = some s := rfl

theorem run_cons (s : σ) (a : α) (as : List α) :
    run step s (a :: as) = (step s a).bind fun s' => run step s' as := rfl

theorem run_append (s : σ) (as bs : List α) :
    run step s (as ++ bs) = (run step s as).bind fun s' => run step s' bs := by
  induction as generalizing s with
  | nil => rfl
  | cons a as ih =>
      rw [List.cons_append, run_cons, run_cons]
      cases step s a with
      | none => rfl
      | some m => exact ih m

theorem run_append_eq_some {s s' : σ} {as bs : List α} :
    run step s (as ++ bs) = some s' ↔ ∃ m, run step s as = some m ∧ run step m bs = some s' := by
  rw [run_append, Option.bind_eq_some_iff]

/-- A run whose last action is `a`. -/
theorem run_snoc {s s' : σ} {as : List α} {a : α} :
    run step s (as ++ [a]) = some s' ↔ ∃ m, run step s as = some m ∧ step m a = some s' := by
  rw [run_append_eq_some]
  constructor
  · rintro ⟨m, h, h'⟩
    rw [run_cons, Option.bind_eq_some_iff] at h'
    obtain ⟨m', hm', e⟩ := h'
    cases e
    exact ⟨m, h, hm'⟩
  · rintro ⟨m, h, h'⟩
    exact ⟨m, h, by rw [run_cons, h']; rfl⟩

/-- A run of one action. -/
theorem run_one {s s' : σ} {a : α} (h : step s a = some s') : run step s [a] = some s' := by
  rw [run_cons, h]
  rfl

/-- **Induction on the last action of a run.** -/
theorem run_induction {s₀ : σ} {motive : List α → σ → Prop} (nil : motive [] s₀)
    (snoc : ∀ as s a s', run step s₀ as = some s → motive as s → step s a = some s' →
      motive (as ++ [a]) s')
    {as : List α} {s : σ} (h : run step s₀ as = some s) : motive as s := by
  induction as using List.reverseRecOn generalizing s with
  | nil => cases h; exact nil
  | append_singleton as a ih =>
      obtain ⟨m, hm, hs⟩ := run_snoc.mp h
      exact snoc as m a s hm (ih hm) hs

/-- **The invariant rule**: what every step keeps, every run keeps. -/
theorem run_inv {I : σ → Prop} (keep : ∀ s a s', I s → step s a = some s' → I s')
    {s₀ s : σ} {as : List α} (h₀ : I s₀) (h : run step s₀ as = some s) : I s :=
  run_induction (motive := fun _ s => I s) h₀ (fun _ s a s' _ hi hs => keep s a s' hi hs) h

end Run

/-! ## 2. Labels -/

/-- The visible events of a run, in the order they happen. -/
def labels (step : σ → α → Option σ) (label : σ → α → Option ε) : σ → List α → List ε
  | _, [] => []
  | s, a :: as =>
      (label s a).toList ++ ((step s a).elim [] fun s' => labels step label s' as)

section Labels

variable {step : σ → α → Option σ} {label : σ → α → Option ε}

@[simp] theorem labels_nil (s : σ) : labels step label s [] = [] := rfl

theorem labels_cons {s s' : σ} {a : α} (h : step s a = some s') (as : List α) :
    labels step label s (a :: as) = (label s a).toList ++ labels step label s' as := by
  rw [labels, h]
  rfl

theorem labels_append {s m : σ} {as : List α} (h : run step s as = some m) (bs : List α) :
    labels step label s (as ++ bs) = labels step label s as ++ labels step label m bs := by
  induction as generalizing s with
  | nil => cases h; rfl
  | cons a as ih =>
      rw [run_cons, Option.bind_eq_some_iff] at h
      obtain ⟨s', hs, hr⟩ := h
      rw [List.cons_append, labels_cons hs, labels_cons hs, ih hr, List.append_assoc]

theorem labels_snoc {s m m' : σ} {as : List α} {a : α} (h : run step s as = some m)
    (h' : step m a = some m') :
    labels step label s (as ++ [a]) = labels step label s as ++ (label m a).toList := by
  rw [labels_append h, labels_cons h', labels_nil, List.append_nil]

/-- **The simulation rule.** `abs` reads a state as an abstract one; on states with the invariant
    `I` a silent step is invisible to it and a step labelled `e` is the abstract step `e`. Then
    the labels of a run are a run of the abstract system. -/
theorem run_refines {apply : τ → ε → Option τ} {abs : σ → τ} {I : σ → Prop}
    (keep : ∀ s a s', I s → step s a = some s' → I s')
    (silent : ∀ s a s', I s → step s a = some s' → label s a = none → abs s' = abs s)
    (visible : ∀ s a s' e, I s → step s a = some s' → label s a = some e →
      apply (abs s) e = some (abs s'))
    {s₀ s : σ} {as : List α} (h₀ : I s₀) (h : run step s₀ as = some s) :
    run apply (abs s₀) (labels step label s₀ as) = some (abs s) := by
  refine run_induction (motive := fun as s =>
    run apply (abs s₀) (labels step label s₀ as) = some (abs s)) rfl ?_ h
  intro as s a s' hr ih hs
  have hi : I s := run_inv keep h₀ hr
  rw [labels_snoc hr hs]
  cases hl : label s a with
  | none =>
      rw [Option.toList_none, List.append_nil, ih, silent s a s' hi hs hl]
  | some e =>
      rw [Option.toList_some]
      exact run_snoc.mpr ⟨abs s, ih, visible s a s' e hi hs hl⟩

end Labels

/-! ## 3. The steps of a run -/

/-- The actions of a run, each with the state it is taken in. -/
def steps (step : σ → α → Option σ) : σ → List α → List (σ × α)
  | _, [] => []
  | s, a :: as => (s, a) :: ((step s a).elim [] fun s' => steps step s' as)

section Steps

variable {step : σ → α → Option σ}

theorem steps_cons {s s' : σ} {a : α} (h : step s a = some s') (as : List α) :
    steps step s (a :: as) = (s, a) :: steps step s' as := by
  rw [steps, h]
  rfl

theorem mem_steps_act {s : σ} {as : List α} {x : σ × α} (h : x ∈ steps step s as) : x.2 ∈ as := by
  induction as generalizing s with
  | nil => cases h
  | cons a as ih =>
      rcases List.mem_cons.mp h with rfl | h
      · exact List.mem_cons_self
      · cases hs : step s a with
        | none =>
            rw [hs] at h
            cases h
        | some s' =>
            rw [hs] at h
            exact List.mem_cons_of_mem _ (ih h)

theorem steps_append {s m : σ} {as : List α} (h : run step s as = some m) (bs : List α) :
    steps step s (as ++ bs) = steps step s as ++ steps step m bs := by
  induction as generalizing s with
  | nil => cases h; rfl
  | cons a as ih =>
      rw [run_cons, Option.bind_eq_some_iff] at h
      obtain ⟨s', hs, hr⟩ := h
      rw [List.cons_append, steps_cons hs, steps_cons hs, ih hr, List.cons_append]

/-- The last step of a run. -/
theorem steps_snoc {s m m' : σ} {as : List α} {a : α} (h : run step s as = some m)
    (h' : step m a = some m') : steps step s (as ++ [a]) = steps step s as ++ [(m, a)] := by
  rw [steps_append h, steps_cons h']
  rfl

/-- **The progress rule**: if a state with the invariant that is not at rest has an allowed step
    that lowers a measure, then some run of allowed steps comes to rest. -/
theorem exists_run_to_rest {I rest : σ → Prop} {ok : α → Prop} {μ : σ → Nat}
    (progress : ∀ s, I s → ¬rest s → ∃ a s', ok a ∧ step s a = some s' ∧ I s' ∧ μ s' < μ s) {s : σ}
    (h : I s) : ∃ as s', (∀ a ∈ as, ok a) ∧ run step s as = some s' ∧ rest s' := by
  induction hm : μ s using Nat.strongRecOn generalizing s with
  | ind n ih =>
      by_cases hr : rest s
      · exact ⟨[], s, fun _ ha => absurd ha List.not_mem_nil, rfl, hr⟩
      · obtain ⟨a, s', ha, hs, hi, hlt⟩ := progress s h hr
        obtain ⟨as, s'', has, hrun, hrest⟩ := ih (μ s') (hm ▸ hlt) hi rfl
        refine ⟨a :: as, s'', fun b hb => ?_, ?_, hrest⟩
        · rcases List.mem_cons.mp hb with rfl | hb
          · exact ha
          · exact has b hb
        · rw [run_cons, hs]
          exact hrun

/-- **The termination rule**: steps that lower a measure are no more than the measure. -/
theorem run_length_le {I : σ → Prop} {ok : α → Prop} {μ : σ → Nat}
    (lower : ∀ s a s', I s → ok a → step s a = some s' → I s' ∧ μ s' < μ s) {s s' : σ}
    {as : List α} (h₀ : I s) (hok : ∀ a ∈ as, ok a) (h : run step s as = some s') :
    as.length ≤ μ s := by
  induction as generalizing s with
  | nil => exact Nat.zero_le _
  | cons a as ih =>
      rw [run_cons, Option.bind_eq_some_iff] at h
      obtain ⟨m, hs, hr⟩ := h
      obtain ⟨hi, hlt⟩ := lower s a m h₀ (hok a List.mem_cons_self) hs
      have := ih hi (fun b hb => hok b (List.mem_cons_of_mem _ hb)) hr
      rw [List.length_cons]
      omega

/-- **The invariant rule under a step condition**: if every step of a run meets `C`, and `C` steps
    keep `I`, then every step is taken in a state with `I`. -/
theorem steps_inv {I : σ → Prop} {C : σ → α → Prop}
    (keep : ∀ s a s', C s a → I s → step s a = some s' → I s') {s : σ} {as : List α} (h₀ : I s)
    (hC : ∀ x ∈ steps step s as, C x.1 x.2) : ∀ x ∈ steps step s as, I x.1 := by
  induction as generalizing s with
  | nil => exact fun x hx => absurd hx List.not_mem_nil
  | cons a as ih =>
      intro x hx
      have ha : C s a := hC (s, a) List.mem_cons_self
      rcases List.mem_cons.mp hx with rfl | hx
      · exact h₀
      · cases hs : step s a with
        | none =>
            rw [hs] at hx
            cases hx
        | some s' =>
            rw [hs] at hx
            refine ih (keep s a s' ha h₀ hs) (fun y hy => hC y ?_) x hx
            rw [steps_cons hs]
            exact List.mem_cons_of_mem _ hy

/-- The same for the state a run ends in. -/
theorem run_inv_steps {I : σ → Prop} {C : σ → α → Prop}
    (keep : ∀ s a s', C s a → I s → step s a = some s' → I s') {s s' : σ} {as : List α} (h₀ : I s)
    (h : run step s as = some s') (hC : ∀ x ∈ steps step s as, C x.1 x.2) : I s' := by
  refine run_induction (motive := fun as m => (∀ x ∈ steps step s as, C x.1 x.2) → I m)
    (fun _ => h₀) ?_ h hC
  intro as m a m' hr ih hs hC
  rw [steps_snoc hr hs] at hC
  refine keep m a m' (hC (m, a) ?_) (ih fun x hx => hC x (List.mem_append_left _ hx)) hs
  exact List.mem_append_right _ (List.mem_singleton_self _)

end Steps

end BankingService.Lib
