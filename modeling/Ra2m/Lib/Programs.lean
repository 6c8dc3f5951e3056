/-
Programs that work on a list through reads and writes of stretches of it.

A program asks for an access and goes on with its result, or with the error it is refused
with; which accesses are refused does not depend on the list.  `run` is what a program does
alone on a list.  `Reaches` is how far it has come after some answers: as long as every
answer is the one it would get alone, it is on the way to what it returns alone
(`Reaches.run_eq`).
-/
import Ra2m.Lib.Accesses

inductive Program (α ε β : Type) where
  | done (b : β)
  | access (x : Access α) (next : Except ε (List α) → Program α ε β)

namespace Program

variable {α ε β γ : Type}

/-- Go on with what a program returns. -/
def andThen (f : β → Program α ε γ) : Program α ε β → Program α ε γ
  | done b => f b
  | access x next => access x fun r => (next r).andThen f

/-- What a program asks for alone on the list `m`, and what it returns. -/
def run (allow : Access α → Except ε Unit) (m : List α) : Program α ε β → List (Access α) × β
  | done b => ([], b)
  | access x next =>
      match allow x with
      | .error err =>
          let (asked, b) := (next (.error err)).run allow m
          (x :: asked, b)
      | .ok () =>
          let (asked, b) := (next (.ok (x.result m))).run allow (x.step m)
          (x :: asked, b)

/-- The accesses that are not refused. -/
def granted (allow : Access α → Except ε Unit) (asked : List (Access α)) : List (Access α) :=
  asked.filter fun x => (allow x).isOk

/-- The list after accesses of which some are refused. -/
def memoryAfter (allow : Access α → Except ε Unit) (m : List α) (asked : List (Access α)) :
    List α :=
  (Access.serve m (granted allow asked)).2

/-- A program has come from one place to the other, asking for accesses that were answered as if it
were alone. -/
inductive Reaches (allow : Access α → Except ε Unit) (m : List α) (p : Program α ε β) :
    List (Access α) → Program α ε β → Prop where
  | start : Reaches allow m p [] p
  | refused {asked : List (Access α)} {x : Access α}
      {next : Except ε (List α) → Program α ε β} {err : ε}
      (before : Reaches allow m p asked (access x next)) (refusal : allow x = .error err) :
      Reaches allow m p (asked ++ [x]) (next (.error err))
  | granted {asked : List (Access α)} {x : Access α}
      {next : Except ε (List α) → Program α ε β}
      (before : Reaches allow m p asked (access x next)) (grant : allow x = .ok ()) :
      Reaches allow m p (asked ++ [x]) (next (.ok (x.result (memoryAfter allow m asked))))

variable {allow : Access α → Except ε Unit} {m : List α} {p p' : Program α ε β}
  {asked : List (Access α)} {x : Access α} {next : Except ε (List α) → Program α ε β}

/-! ### Running alone -/

@[simp] theorem run_done (b : β) : (done b : Program α ε β).run allow m = ([], b) := rfl

theorem run_refused {err : ε} (h : allow x = .error err) : (access x next).run allow m =
    (x :: ((next (.error err)).run allow m).1, ((next (.error err)).run allow m).2) := by
  simp [run, h]

theorem run_granted (h : allow x = .ok ()) : (access x next).run allow m =
    (x :: ((next (.ok (x.result m))).run allow (x.step m)).1,
      ((next (.ok (x.result m))).run allow (x.step m)).2) := by
  simp [run, h]

theorem granted_append (l l' : List (Access α)) :
    granted allow (l ++ l') = granted allow l ++ granted allow l' := List.filter_append ..

theorem granted_refused {err : ε} (h : allow x = .error err) : granted allow [x] = [] := by
  simp [granted, h, Except.isOk, Except.toBool]

theorem granted_granted (h : allow x = .ok ()) : granted allow [x] = [x] := by
  simp [granted, h, Except.isOk, Except.toBool]

@[simp] theorem memoryAfter_nil : memoryAfter allow m [] = m := rfl

theorem memoryAfter_refused {err : ε} (h : allow x = .error err) :
    memoryAfter allow m (asked ++ [x]) = memoryAfter allow m asked := by
  rw [memoryAfter, granted_append, granted_refused h, List.append_nil]
  rfl

theorem memoryAfter_granted (h : allow x = .ok ()) :
    memoryAfter allow m (asked ++ [x]) = x.step (memoryAfter allow m asked) := by
  rw [memoryAfter, granted_append, granted_granted h, Access.serve_append]
  rfl

/-- A program that goes on asks for what its parts ask for, the second on what the first leaves. -/
theorem run_andThen (f : β → Program α ε γ) (m : List α) (p : Program α ε β) :
    (p.andThen f).run allow m =
      ((p.run allow m).1 ++
          ((f (p.run allow m).2).run allow (memoryAfter allow m (p.run allow m).1)).1,
        ((f (p.run allow m).2).run allow (memoryAfter allow m (p.run allow m).1)).2) := by
  induction p generalizing m with
  | done b => rfl
  | access x next ih =>
      cases h : allow x with
      | error err =>
          have hnone : granted allow (x :: ((next (.error err)).run allow m).1) =
              granted allow ((next (.error err)).run allow m).1 := by
            rw [← List.singleton_append, granted_append, granted_refused h, List.nil_append]
          rw [andThen, run_refused h, ih, run_refused h, List.cons_append, memoryAfter, memoryAfter,
            hnone]
      | ok u =>
          have hone : granted allow (x :: ((next (.ok (x.result m))).run allow (x.step m)).1) =
              x :: granted allow ((next (.ok (x.result m))).run allow (x.step m)).1 := by
            rw [← List.singleton_append, granted_append, granted_granted h]
            rfl
          rw [andThen, run_granted h, ih, run_granted h, List.cons_append, memoryAfter, memoryAfter,
            hone]
          rfl

/-! ### On the way -/

/-- **A program that got the answers it gets alone returns what it returns alone.** -/
theorem Reaches.run_eq (h : Reaches allow m p asked p') : p.run allow m =
    (asked ++ (p'.run allow (memoryAfter allow m asked)).1,
      (p'.run allow (memoryAfter allow m asked)).2) := by
  induction h with
  | start => rfl
  | refused before refusal ih =>
      rw [ih, run_refused refusal, memoryAfter_refused refusal, List.append_assoc]
      rfl
  | granted before grant ih =>
      rw [ih, run_granted grant, memoryAfter_granted grant, List.append_assoc]
      rfl

/-- What it has asked for and asks for next it also asks for alone. -/
theorem Reaches.isPrefix (h : Reaches allow m p asked (access x next)) :
    asked ++ [x] <+: (p.run allow m).1 := by
  rw [h.run_eq]
  cases hx : allow x with
  | error err =>
      rw [run_refused hx]
      exact ⟨_, List.append_assoc _ _ _⟩
  | ok u =>
      rw [run_granted hx]
      exact ⟨_, List.append_assoc _ _ _⟩

/-- Once it is done, it has asked for all it asks for alone. -/
theorem Reaches.run_of_done {b : β} (h : Reaches allow m p asked (done b)) :
    p.run allow m = (asked, b) := by
  simpa using h.run_eq

theorem mem_granted : x ∈ granted allow asked ↔ x ∈ asked ∧ allow x = .ok () := by
  rw [granted, List.mem_filter]
  cases h : allow x with
  | error err => simp [Except.isOk, Except.toBool]
  | ok u => simp [Except.isOk, Except.toBool]

end Program
