/-
Reads and writes served on a list one after another, and when their order matters.

`serve` gives what the reads of a list of accesses return and the list after all of
them.  The element at a position is what the last write on the position left there
(`getElem?_serve`), and a read finds what the last write before it left.  Serving
the accesses from the last to the first puts first writes in the place of last ones,
so the two orders agree exactly when, position by position, the two writes agree:
`OrderFree`, on the accesses and the list alone.
-/
import Ra2m.Lib.Window
import Mathlib.Data.Set.Defs

variable {α : Type*}

inductive Access (α : Type*) where
  | read (a n : Nat)
  | write (a : Nat) (xs : List α)

namespace Access

/-- The list after the access. -/
def step (m : List α) : Access α → List α
  | read _ _ => m
  | write a xs => Window.write m a xs

/-- What the access returns. -/
def result (m : List α) : Access α → List α
  | read a n => Window.read m a n
  | write _ _ => []

/-- The access stays inside a list of the given size. -/
def InRange (size : Nat) : Access α → Prop
  | read a n => a + n ≤ size
  | write a xs => a + xs.length ≤ size

/-- What the access leaves at position `b`, if it writes there. -/
def writesAt (b : Nat) : Access α → Option α
  | read _ _ => none
  | write a xs => if a ≤ b then xs[b - a]? else none

/-- The access reads position `b`. -/
def ReadsAt (b : Nat) : Access α → Prop
  | read a n => a ≤ b ∧ b < a + n
  | write _ _ => False

/-- The positions the access reads or writes. -/
def span : Access α → Set Nat
  | read a n => {b | a ≤ b ∧ b < a + n}
  | write a xs => {b | a ≤ b ∧ b < a + xs.length}

/-- The access with its positions counted from `k` on. -/
def shift (k : Nat) : Access α → Access α
  | read a n => read (k + a) n
  | write a xs => write (k + a) xs

/-- The results of the accesses and the list after them. -/
def serve (m : List α) : List (Access α) → List (List α) × List α
  | [] => ([], m)
  | x :: rest => (result m x :: (serve (step m x) rest).1, (serve (step m x) rest).2)

def firstWrite (accs : List (Access α)) (b : Nat) : Option α := accs.findSome? (writesAt b)

def lastWrite (accs : List (Access α)) (b : Nat) : Option α := firstWrite accs.reverse b

/-- The first writes on a position agree with the last ones where it shows: at the end, and at
each read with what comes before it and after it. -/
structure OrderFree (m : List α) (accs : List (Access α)) : Prop where
  final : ∀ b, (firstWrite accs b).or m[b]? = (lastWrite accs b).or m[b]?
  reads : ∀ pre x post, accs = pre ++ x :: post → ∀ b, x.ReadsAt b →
    (firstWrite post b).or m[b]? = (lastWrite pre b).or m[b]?

variable {m : List α} {accs : List (Access α)}

/-! ### One access -/

theorem length_step {x : Access α} (h : x.InRange m.length) : (step m x).length = m.length := by
  cases x with
  | read a n => rfl
  | write a xs => exact Window.length_write h

theorem getElem?_step {x : Access α} (h : x.InRange m.length) (b : Nat) :
    (step m x)[b]? = (x.writesAt b).or m[b]? := by
  cases x with
  | read a n => rfl
  | write a xs =>
      simp only [step, writesAt]
      rw [Window.getElem?_write m h]
      by_cases hab : a ≤ b
      · by_cases hb : b < a + xs.length
        · rw [if_pos ⟨hab, hb⟩, if_pos hab, List.getElem?_eq_getElem (by omega)]
          rfl
        · have hnone : xs[b - a]? = none := List.getElem?_eq_none (by omega)
          rw [if_neg (by omega), if_pos hab, hnone]
          rfl
      · rw [if_neg (by omega), if_neg hab]
        rfl

/-- Two lists give an access the same result when they agree where it reads. -/
theorem result_eq_iff {m₁ m₂ : List α} (x : Access α) :
    x.result m₁ = x.result m₂ ↔ ∀ b, x.ReadsAt b → m₁[b]? = m₂[b]? := by
  cases x with
  | read a n => exact Window.read_eq_iff
  | write a xs => exact ⟨fun _ b hb => hb.elim, fun _ => rfl⟩

/-! ### An access inside a window -/

/-- An access inside a window returns what it returns on the window. -/
theorem result_shift {x : Access α} {b n : Nat} (h : x.InRange n) :
    (x.shift b).result m = x.result (Window.read m b n) := by
  cases x with
  | read a d => exact (Window.read_read m h).symm
  | write a xs => rfl

/-- It leaves in the window what it leaves on the window. -/
theorem read_step_shift {x : Access α} {b n : Nat} (h : x.InRange n) (hn : b + n ≤ m.length) :
    Window.read ((x.shift b).step m) b n = x.step (Window.read m b n) := by
  cases x with
  | read a d => rfl
  | write a xs => exact Window.read_write_inside m h hn

/-- And leaves any window apart from it as it is. -/
theorem read_step_shift_apart {x : Access α} {b n b' n' : Nat} (h : x.InRange n)
    (hn : b + n ≤ m.length) (hapart : b + n ≤ b' ∨ b' + n' ≤ b) :
    Window.read ((x.shift b).step m) b' n' = Window.read m b' n' := by
  cases x with
  | read a d => rfl
  | write a xs =>
      have hin : a + xs.length ≤ n := h
      refine Window.read_write_outside m (by omega) ?_
      rcases hapart with hlt | hlt
      · exact Or.inl (by omega)
      · exact Or.inr (by omega)

theorem InRange.shift {x : Access α} {b n size : Nat} (h : x.InRange n) (hn : b + n ≤ size) :
    (x.shift b).InRange size := by
  cases x with
  | read a d =>
      simp only [InRange, Access.shift] at h ⊢
      omega
  | write a xs =>
      simp only [InRange, Access.shift] at h ⊢
      omega

/-! ### A list of accesses -/

@[simp] theorem serve_nil : serve m [] = ([], m) := rfl

theorem serve_append (m : List α) (pre post : List (Access α)) :
    serve m (pre ++ post) =
      ((serve m pre).1 ++ (serve (serve m pre).2 post).1, (serve (serve m pre).2 post).2) := by
  induction pre generalizing m with
  | nil => rfl
  | cons x rest ih =>
      rw [List.cons_append, serve, ih (step m x)]
      rfl

theorem length_results (m : List α) (accs : List (Access α)) :
    (serve m accs).1.length = accs.length := by
  induction accs generalizing m with
  | nil => rfl
  | cons x rest ih => rw [serve, List.length_cons, List.length_cons, ih]

theorem length_serve (h : ∀ x ∈ accs, x.InRange m.length) : (serve m accs).2.length = m.length := by
  induction accs generalizing m with
  | nil => rfl
  | cons x rest ih =>
      have hlen := length_step (h x List.mem_cons_self)
      rw [serve, ih fun y hy => hlen ▸ h y (List.mem_cons_of_mem x hy), hlen]

theorem lastWrite_cons (x : Access α) (rest : List (Access α)) (b : Nat) :
    lastWrite (x :: rest) b = (lastWrite rest b).or (x.writesAt b) := by
  unfold lastWrite firstWrite
  rw [List.reverse_cons, List.findSome?_append]
  simp

/-- A position of the list after the accesses holds what the last write on it left. -/
theorem getElem?_serve (h : ∀ x ∈ accs, x.InRange m.length) (b : Nat) :
    (serve m accs).2[b]? = (lastWrite accs b).or m[b]? := by
  induction accs generalizing m with
  | nil => rfl
  | cons x rest ih =>
      have hx := h x (by simp)
      have hrest : ∀ y ∈ rest, y.InRange (step m x).length := by
        intro y hy
        rw [length_step hx]
        exact h y (by simp [hy])
      rw [serve, ih hrest, getElem?_step hx, lastWrite_cons, Option.or_assoc]

/-- The result of an access is read off the list the accesses before it leave. -/
theorem getElem?_results (pre post : List (Access α)) (x : Access α) :
    (serve m (pre ++ x :: post)).1[pre.length]? = some (x.result (serve m pre).2) := by
  have hlen := length_results m pre
  rw [serve_append, List.getElem?_append_right (by omega), hlen, Nat.sub_self]
  rfl

/-! ### Accesses that do not meet -/

theorem writesAt_of_not_mem {x : Access α} {b : Nat} (h : b ∉ x.span) : x.writesAt b = none := by
  cases x with
  | read a n => rfl
  | write a xs =>
      simp only [writesAt]
      by_cases hab : a ≤ b
      · have hout : ¬ b < a + xs.length := fun hlt => h ⟨hab, hlt⟩
        rw [if_pos hab, List.getElem?_eq_none (by omega)]
      · rw [if_neg hab]

theorem mem_span_of_readsAt {x : Access α} {b : Nat} (h : x.ReadsAt b) : b ∈ x.span := by
  cases x with
  | read a n => exact h
  | write a xs => exact h.elim

/-- The writes on a position that a sequence leaves out do not show there if there are none. -/
theorem lastWrite_filter {ι : Type*} {f : ι → Access α} {p : ι → Bool} {l : List ι} {b : Nat}
    (h : ∀ i ∈ l, p i = false → (f i).writesAt b = none) :
    lastWrite ((l.filter p).map f) b = lastWrite (l.map f) b := by
  induction l with
  | nil => rfl
  | cons i rest ih =>
      have hrest := ih fun j hj => h j (List.mem_cons_of_mem i hj)
      by_cases hp : p i = true
      · rw [List.filter_cons_of_pos hp, List.map_cons, List.map_cons, lastWrite_cons,
          lastWrite_cons, hrest]
      · have hnone := h i List.mem_cons_self (by simpa using hp)
        rw [List.filter_cons_of_neg hp, List.map_cons, lastWrite_cons, hrest, hnone, Option.or_none]

/-- A position that only part of a sequence writes on holds what that part leaves there. -/
theorem getElem?_serve_filter {ι : Type*} {f : ι → Access α} {p : ι → Bool} {l : List ι} {b : Nat}
    (hin : ∀ i ∈ l, (f i).InRange m.length)
    (hapart : ∀ i ∈ l, p i = false → (f i).writesAt b = none) :
    (serve m ((l.filter p).map f)).2[b]? = (serve m (l.map f)).2[b]? := by
  have hall : ∀ y ∈ l.map f, y.InRange m.length := List.forall_mem_map.mpr hin
  have hsub : ∀ y ∈ (l.filter p).map f, y.InRange m.length :=
    List.forall_mem_map.mpr fun i hi => hin i (List.mem_of_mem_filter hi)
  rw [getElem?_serve hall, getElem?_serve hsub, lastWrite_filter hapart]

/-- **An access does not see the accesses that write nothing it reads.** -/
theorem result_serve_filter_of_reads {ι : Type*} {f : ι → Access α} {p : ι → Bool} {l : List ι}
    {x : Access α} (hin : ∀ i ∈ l, (f i).InRange m.length)
    (hapart : ∀ i ∈ l, p i = false → ∀ b, x.ReadsAt b → (f i).writesAt b = none) :
    x.result (serve m ((l.filter p).map f)).2 = x.result (serve m (l.map f)).2 := by
  rw [result_eq_iff]
  intro b hb
  exact getElem?_serve_filter hin fun i hi hp => hapart i hi hp b hb

/-- Nor those it does not meet at all. -/
theorem result_serve_filter {ι : Type*} {f : ι → Access α} {p : ι → Bool} {l : List ι}
    {x : Access α} (hin : ∀ i ∈ l, (f i).InRange m.length)
    (hapart : ∀ i ∈ l, p i = false → ∀ b ∈ (f i).span, b ∉ x.span) :
    x.result (serve m ((l.filter p).map f)).2 = x.result (serve m (l.map f)).2 := by
  refine result_serve_filter_of_reads hin fun i hi hp b hb => ?_
  exact writesAt_of_not_mem fun hmem => hapart i hi hp b hmem (mem_span_of_readsAt hb)

/-! ### From the last access to the first -/

theorem getElem?_serve_reverse (h : ∀ x ∈ accs, x.InRange m.length) (b : Nat) :
    (serve m accs.reverse).2[b]? = (firstWrite accs b).or m[b]? := by
  rw [getElem?_serve (by simpa using h)]
  unfold lastWrite
  rw [List.reverse_reverse]

/-- Served from the last to the first, an access finds what the accesses after it leave. -/
theorem getElem?_results_reverse (pre post : List (Access α)) (x : Access α) :
    (serve m (pre ++ x :: post).reverse).1.reverse[pre.length]? =
      some (x.result (serve m post.reverse).2) := by
  have hlen := length_results m (pre ++ x :: post).reverse
  have hrev : (pre ++ x :: post).reverse = post.reverse ++ x :: pre.reverse := by simp
  rw [List.getElem?_reverse (by rw [hlen]; simp; omega), hlen, hrev]
  have hidx : (post.reverse ++ x :: pre.reverse).length - 1 - pre.length = post.reverse.length := by
    simp
  rw [hidx, getElem?_results]

/-- The two orders give each access the same result exactly when they give it the same bytes. -/
theorem results_reverse_eq_iff :
    (serve m accs.reverse).1.reverse = (serve m accs).1 ↔
      ∀ pre x post, accs = pre ++ x :: post →
        x.result (serve m post.reverse).2 = x.result (serve m pre).2 := by
  constructor
  · intro heq pre x post hsplit
    have hrev := getElem?_results_reverse (m := m) pre post x
    rw [← hsplit, heq, hsplit, getElem?_results] at hrev
    exact (Option.some.inj hrev).symm
  · intro h
    refine List.ext_getElem? fun i => ?_
    by_cases hi : i < accs.length
    · have hsplit : accs = accs.take i ++ accs[i] :: accs.drop (i + 1) := by simp
      have hlen : (accs.take i).length = i := by rw [List.length_take]; omega
      have hfwd := getElem?_results (m := m) (accs.take i) (accs.drop (i + 1)) accs[i]
      have hbwd := getElem?_results_reverse (m := m) (accs.take i) (accs.drop (i + 1)) accs[i]
      rw [hlen, ← hsplit] at hfwd hbwd
      rw [hfwd, hbwd, h _ _ _ hsplit]
    · have h1 := length_results m accs
      have h2 := length_results m accs.reverse
      rw [List.length_reverse] at h2
      rw [List.getElem?_eq_none (by rw [List.length_reverse]; omega),
        List.getElem?_eq_none (by omega)]

/-- Serving the accesses backwards gives the same results and the same list exactly when their
order does not show. -/
theorem serve_reverse_eq_iff (h : ∀ x ∈ accs, x.InRange m.length) :
    ((serve m accs.reverse).1.reverse = (serve m accs).1 ∧
        (serve m accs.reverse).2 = (serve m accs).2) ↔ OrderFree m accs := by
  have hpart : ∀ pre x post, accs = pre ++ x :: post →
      (x.result (serve m post.reverse).2 = x.result (serve m pre).2 ↔
        ∀ b, x.ReadsAt b → (firstWrite post b).or m[b]? = (lastWrite pre b).or m[b]?) := by
    intro pre x post hsplit
    rw [result_eq_iff]
    have hpre : ∀ y ∈ pre, y.InRange m.length := fun y hy => h y (by simp [hsplit, hy])
    have hpost : ∀ y ∈ post, y.InRange m.length := fun y hy => h y (by simp [hsplit, hy])
    simp only [getElem?_serve_reverse hpost, getElem?_serve hpre]
  rw [results_reverse_eq_iff]
  constructor
  · rintro ⟨hres, hmem⟩
    refine ⟨?_, fun pre x post hsplit => (hpart pre x post hsplit).mp (hres pre x post hsplit)⟩
    intro b
    rw [← getElem?_serve_reverse h, ← getElem?_serve h, hmem]
  · intro hfree
    refine ⟨fun pre x post hsplit => (hpart pre x post hsplit).mpr
      (hfree.reads pre x post hsplit), List.ext_getElem? fun b => ?_⟩
    rw [getElem?_serve_reverse h, getElem?_serve h, hfree.final]

end Access
