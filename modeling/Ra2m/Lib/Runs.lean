/-
Runs of a transition system given by a partial step function.

A system is a function `step : S → A → Option S`: the action resolves every choice
the system leaves open, and `none` says that the action is not enabled.  A run is
a list of actions taken one after another, so a statement about every
interleaving is a statement about every list.

The rules at the end are the ones the proofs about systems use: what every step keeps
holds after every run, what the steps keep as long as they meet a condition holds after
every run whose steps all meet it, and a system that can always take a step closer to an
end can reach it.
-/
import Mathlib.Data.List.Basic
import Mathlib.Tactic.Common

namespace Runs

variable {S A : Type*} (step : S → A → Option S)

/-- Take the actions of a list in order. -/
def run (s : S) : List A → Option S
  | [] => some s
  | a :: rest => (step s a).bind fun s' => run s' rest

@[simp] theorem run_nil (s : S) : run step s [] = some s := rfl

variable {step}

theorem run_cons_iff {s s'' : S} {a : A} {rest : List A} :
    run step s (a :: rest) = some s'' ↔
      ∃ s', step s a = some s' ∧ run step s' rest = some s'' := by
  simp only [run, Option.bind_eq_some_iff]

theorem run_append_iff {s s'' : S} {pre post : List A} :
    run step s (pre ++ post) = some s'' ↔
      ∃ s', run step s pre = some s' ∧ run step s' post = some s'' := by
  induction pre generalizing s with
  | nil => simp
  | cons a rest ih =>
      rw [List.cons_append, run_cons_iff]
      constructor
      · rintro ⟨s₁, h1, h2⟩
        obtain ⟨s', h3, h4⟩ := ih.mp h2
        exact ⟨s', run_cons_iff.mpr ⟨s₁, h1, h3⟩, h4⟩
      · rintro ⟨s', h1, h2⟩
        obtain ⟨s₁, h3, h4⟩ := run_cons_iff.mp h1
        exact ⟨s₁, h3, ih.mpr ⟨s', h4, h2⟩⟩

theorem run_snoc_iff {s s'' : S} {pre : List A} {a : A} :
    run step s (pre ++ [a]) = some s'' ↔
      ∃ s', run step s pre = some s' ∧ step s' a = some s'' := by
  rw [run_append_iff]
  simp [run]

variable (step)

/-- `s` can be reached from `s₀`. -/
def Reachable (s₀ s : S) : Prop := ∃ acts, run step s₀ acts = some s

/-- Every step the run takes meets `P`, a condition on the state before it and its action. -/
def Along (P : S → A → Prop) (s : S) : List A → Prop
  | [] => True
  | a :: rest => P s a ∧ ∀ s', step s a = some s' → Along P s' rest

/-- What the steps of a run put out, one after another. -/
def trace {B : Type*} (out : S → A → List B) (s : S) : List A → List B
  | [] => []
  | a :: rest => out s a ++ ((step s a).map fun s' => trace out s' rest).getD []

/-- Whether a run meets a decidable condition can be computed. -/
instance Along.decidable (P : S → A → Prop) [∀ s a, Decidable (P s a)] :
    (s : S) → (acts : List A) → Decidable (Along step P s acts)
  | _, [] => isTrue trivial
  | s, a :: rest =>
      match h : step s a with
      | none => decidable_of_iff (P s a) (by simp [Along, h])
      | some s' =>
          have := Along.decidable P s' rest
          decidable_of_iff (P s a ∧ Along step P s' rest) (by simp [Along, h])

variable {step}

@[simp] theorem trace_nil {B : Type*} (out : S → A → List B) (s : S) :
    trace step out s [] = [] := rfl

theorem trace_cons {B : Type*} {out : S → A → List B} {s s' : S} {a : A} {rest : List A}
    (h : step s a = some s') :
    trace step out s (a :: rest) = out s a ++ trace step out s' rest := by
  rw [trace, h]
  rfl

theorem Reachable.refl (s : S) : Reachable step s s := ⟨[], rfl⟩

theorem Reachable.trans {s s' s'' : S} (h : Reachable step s s') (h' : Reachable step s' s'') :
    Reachable step s s'' := by
  obtain ⟨pre, hpre⟩ := h
  obtain ⟨post, hpost⟩ := h'
  exact ⟨pre ++ post, run_append_iff.mpr ⟨s', hpre, hpost⟩⟩

/-- What every step keeps, every run keeps. -/
theorem run_inv {I : S → Prop} (hstep : ∀ s a s', I s → step s a = some s' → I s')
    {acts : List A} {s s' : S} (h : I s) (hrun : run step s acts = some s') : I s' := by
  induction acts generalizing s with
  | nil =>
      obtain rfl : s = s' := by simpa using hrun
      exact h
  | cons a rest ih =>
      obtain ⟨s₁, ha, hrest⟩ := run_cons_iff.mp hrun
      exact ih (hstep s a s₁ h ha) hrest

theorem Reachable.inv {I : S → Prop} (hstep : ∀ s a s', I s → step s a = some s' → I s')
    {s₀ s : S} (h₀ : I s₀) (h : Reachable step s₀ s) : I s := by
  obtain ⟨acts, hacts⟩ := h
  exact run_inv hstep h₀ hacts

/-- What the steps keep when they meet `P` holds after a run whose steps all meet `P`. -/
theorem run_inv_along {I : S → Prop} {P : S → A → Prop}
    (hstep : ∀ s a s', I s → P s a → step s a = some s' → I s')
    {acts : List A} {s s' : S} (h : I s) (hP : Along step P s acts)
    (hrun : run step s acts = some s') : I s' := by
  induction acts generalizing s with
  | nil =>
      obtain rfl : s = s' := by simpa using hrun
      exact h
  | cons a rest ih =>
      obtain ⟨s₁, ha, hrest⟩ := run_cons_iff.mp hrun
      exact ih (hstep s a s₁ h hP.1 ha) (hP.2 s₁ ha) hrest

/-- A condition holds along a run when it holds before each of its steps. -/
theorem along_iff {P : S → A → Prop} {s : S} {acts : List A} :
    Along step P s acts ↔
      ∀ pre a post s', acts = pre ++ a :: post → run step s pre = some s' → P s' a := by
  induction acts generalizing s with
  | nil =>
      refine ⟨?_, fun _ => trivial⟩
      intro _ pre a post s' h
      simp at h
  | cons x rest ih =>
      constructor
      · rintro ⟨hx, hrest⟩ pre a post s' hsplit hrun
        cases pre with
        | nil =>
            obtain rfl : s = s' := by simpa using hrun
            obtain ⟨rfl, -⟩ := List.cons.inj hsplit
            exact hx
        | cons y pre =>
            obtain ⟨rfl, hsplit'⟩ := List.cons.inj hsplit
            obtain ⟨s₁, h1, h2⟩ := run_cons_iff.mp hrun
            exact ih.mp (hrest s₁ h1) pre a post s' hsplit' h2
      · intro h
        refine ⟨h [] x rest s rfl rfl, fun s₁ h1 => ih.mpr ?_⟩
        intro pre a post s' hsplit hrun
        exact h (x :: pre) a post s' (by rw [hsplit]; rfl) (run_cons_iff.mpr ⟨s₁, h1, hrun⟩)

/-- A condition that holds along a run holds along its beginning. -/
theorem Along.of_append {P : S → A → Prop} {s : S} {pre post : List A}
    (h : Along step P s (pre ++ post)) : Along step P s pre := by
  rw [along_iff] at h ⊢
  intro pre' a post' s' hsplit hrun
  refine h pre' a (post' ++ post) s' ?_ hrun
  rw [hsplit, List.append_assoc]
  rfl

/-- What holds at the start holds in every state of a run exactly when its steps meet `P`, if `P`
decides, step by step, whether it is kept. -/
theorem holds_iff_along {I G : S → Prop} {P : S → A → Prop}
    (hinv : ∀ s a s', I s → step s a = some s' → I s')
    (hkeep : ∀ s a s', I s → G s → step s a = some s' → (G s' ↔ P s a))
    {acts : List A} {s s₁ : S} (hI : I s) (hG : G s) (hrun : run step s acts = some s₁) :
    (∀ pre post s', acts = pre ++ post → run step s pre = some s' → G s') ↔
      Along step P s acts := by
  induction acts generalizing s with
  | nil =>
      refine ⟨fun _ => trivial, ?_⟩
      intro _ pre post s' hsplit hpre
      obtain ⟨rfl, -⟩ := List.append_eq_nil_iff.mp hsplit.symm
      obtain rfl : s = s' := by simpa using hpre
      exact hG
  | cons a rest ih =>
      obtain ⟨s₂, ha, hrest⟩ := run_cons_iff.mp hrun
      have hiff := hkeep s a s₂ hI hG ha
      constructor
      · intro h
        have hG₂ : G s₂ := h [a] rest s₂ rfl (by rw [run_cons_iff]; exact ⟨s₂, ha, rfl⟩)
        refine ⟨hiff.mp hG₂, ?_⟩
        intro s' hs'
        obtain rfl := Option.some.inj (ha.symm.trans hs')
        refine (ih (hinv s a s₂ hI ha) hG₂ hrest).mp ?_
        intro pre post s' hsplit hpre
        exact h (a :: pre) post s' (by rw [hsplit]; rfl) (run_cons_iff.mpr ⟨s₂, ha, hpre⟩)
      · rintro ⟨hP, halong⟩ pre post s' hsplit hpre
        cases pre with
        | nil =>
            obtain rfl : s = s' := by simpa using hpre
            exact hG
        | cons b pre =>
            obtain ⟨rfl, hsplit'⟩ := List.cons.inj hsplit
            obtain ⟨s₃, hb, hpre'⟩ := run_cons_iff.mp hpre
            obtain rfl := Option.some.inj (ha.symm.trans hb)
            exact (ih (hinv s a s₂ hI ha) (hiff.mpr hP) hrest).mpr (halong s₂ ha) pre post s'
              hsplit' hpre'

/-- Where some step brings the system closer to an end until it is there, a run leads there. -/
theorem exists_run_of_closer {I Done : S → Prop} (left : S → Nat)
    (hcloser : ∀ s, I s → ¬ Done s → ∃ a s', step s a = some s' ∧ I s' ∧ left s' < left s)
    {s : S} (h : I s) : ∃ acts s', run step s acts = some s' ∧ I s' ∧ Done s' := by
  induction hn : left s using Nat.strongRecOn generalizing s with
  | ind n ih =>
      by_cases hdone : Done s
      · exact ⟨[], s, rfl, h, hdone⟩
      · obtain ⟨a, s₁, hstep, h₁, hlt⟩ := hcloser s h hdone
        obtain ⟨acts, s', hrun, h', hdone'⟩ := ih (left s₁) (hn ▸ hlt) h₁ rfl
        exact ⟨a :: acts, s', run_cons_iff.mpr ⟨s₁, hstep, hrun⟩, h', hdone'⟩

/-- A condition on the actions alone holds along a run of such actions. -/
theorem along_of_forall {P : A → Prop} {s : S} {acts : List A} (h : ∀ a ∈ acts, P a) :
    Along step (fun _ a => P a) s acts := by
  rw [along_iff]
  intro pre a post s' hsplit hrun
  refine h a ?_
  rw [hsplit]
  exact List.mem_append_right _ List.mem_cons_self

end Runs
