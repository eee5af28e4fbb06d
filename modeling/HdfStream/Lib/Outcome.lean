/-
# Outcomes of computations that may fail

`Ends E P x` is the outcome of a computation that may fail: a value with `P`, or an exception
with `E`.  The rules for sequences and for loops follow the program text.

A program that writes values may fail in an orderly way, or it may trap.  `Decides` says of one
what it writes and when it traps: exactly if a condition on its input fails that is stated along
the order in which the program comes to its parts.
-/
import Mathlib.Data.List.Basic

namespace Outcome

universe u

variable {α β : Type u} {ε : Type*}

variable {E : ε → Prop}

/-- `x` returns a value with `P` or throws an exception with `E`. -/
def Ends (E : ε → Prop) (P : α → Prop) : Except ε α → Prop
  | .ok a => P a
  | .error e => E e

@[simp] theorem ends_ok {P : α → Prop} {a : α} : Ends E P (.ok a) ↔ P a := Iff.rfl

@[simp] theorem ends_error {P : α → Prop} {e : ε} : Ends E P (.error e) ↔ E e := Iff.rfl

theorem Ends.mono {P Q : α → Prop} {x : Except ε α} (h : Ends E P x) (hPQ : ∀ a, P a → Q a) :
    Ends E Q x := by
  cases x with
  | ok a => exact hPQ a h
  | error e => exact h

/-- More exceptions. -/
theorem Ends.weaken {E' : ε → Prop} {P : α → Prop} {x : Except ε α} (h : Ends E P x)
    (hE : ∀ e, E e → E' e) : Ends E' P x := by
  cases x with
  | ok a => exact h
  | error e => exact hE e h

theorem Ends.map {P : β → Prop} {x : Except ε α} {f : α → β} (h : Ends E (fun a => P (f a)) x) :
    Ends E P (x.map f) := by
  cases x with
  | ok a => exact h
  | error e => exact h

theorem Ends.bind {P : α → Prop} {Q : β → Prop} {x : Except ε α} {f : α → Except ε β}
    (h : Ends E P x) (hf : ∀ a, P a → Ends E Q (f a)) : Ends E Q (x >>= f) := by
  cases x with
  | ok a => exact hf a h
  | error e => exact h

/-- **A loop over a list.**  The invariant says what the elements so far have done. -/
theorem Ends.foldlM {I : List β → α → Prop} {f : α → β → Except ε α} {l : List β}
    (hstep : ∀ before x a, before ++ [x] <+: l → I before a → Ends E (I (before ++ [x])) (f a x))
    {a : α} (h0 : I [] a) : Ends E (I l) (l.foldlM f a) := by
  suffices h : ∀ (rest before : List β) (a : α), before ++ rest = l → I before a →
      Ends E (I l) (rest.foldlM f a) from h l [] a rfl h0
  intro rest
  induction rest with
  | nil =>
    intro before a hl ha
    rw [List.append_nil] at hl
    rw [← hl]
    exact ha
  | cons x rest ih =>
    intro before a hl ha
    rw [List.foldlM_cons]
    refine Ends.bind (hstep before x a ⟨rest, by rw [← hl, List.append_assoc]; rfl⟩ ha)
      fun a' ha' => ?_
    exact ih (before ++ [x]) a' (by rw [← hl, List.append_assoc]; rfl) ha'

/-- A computation that throws nothing. -/
theorem ends_false_iff {P : α → Prop} {x : Except ε α} :
    Ends (fun _ => False) P x ↔ ∃ a, x = .ok a ∧ P a := by
  cases x with
  | ok a => simp
  | error e => simp

/-- A sequence that returns: both parts do. -/
theorem bind_eq_ok_iff {x : Except ε α} {f : α → Except ε β} {b : β} :
    x >>= f = .ok b ↔ ∃ a, x = .ok a ∧ f a = .ok b := by
  cases x with
  | ok a =>
    refine ⟨fun h => ⟨a, rfl, h⟩, ?_⟩
    rintro ⟨a', ha', h⟩
    cases ha'
    exact h
  | error e =>
    constructor
    · intro h
      cases h
    · rintro ⟨a, ha, _⟩
      cases ha

/-! ## Traps -/

section

universe v

variable {γ γ' δ' : Type v} {β' δ : Type u} {fail : ε} {D S S' : Prop}
  {write : γ → β} {R : γ → Prop} {x : Except ε β}

/-- `x` has written a value with `R`, or it has failed and there is none. -/
def Packs (fail : ε) (write : γ → β) (R : γ → Prop) : Except ε β → Prop
  | .ok b => ∃ v, R v ∧ b = write v
  | .error e => e = fail ∧ ∀ v, ¬ R v

/-- `x` has stopped with another exception. -/
def Traps (fail : ε) (x : Except ε β) : Prop := ∃ e, e ≠ fail ∧ x = .error e

/-- **`x` writes a value with `R`, if there is one, as long as `S`**; and in the domain `D` it traps
otherwise. -/
structure Decides (D : Prop) (fail : ε) (write : γ → β) (R : γ → Prop) (S : Prop)
    (x : Except ε β) : Prop where
  packs : S → Packs fail write R x
  traps : D → ¬ S → Traps fail x

theorem Traps.not_ends {P : β → Prop} (h : Traps fail x) : ¬ Ends (· = fail) P x := by
  obtain ⟨e, he, rfl⟩ := h
  exact he

theorem Packs.ends (h : Packs fail write R x) :
    Ends (· = fail) (fun b => ∃ v, R v ∧ b = write v) x := by
  cases x with
  | ok b => exact h
  | error e => exact h.1

theorem Traps.map {f : β → β'} (h : Traps fail x) : Traps fail (x.map f) := by
  obtain ⟨e, he, rfl⟩ := h
  exact ⟨e, he, rfl⟩

/-- A failure, where there is no value. -/
theorem Decides.failed (h : ∀ v, ¬ R v) : Decides D fail write R True (.error fail : Except ε β) :=
  ⟨fun _ => ⟨rfl, h⟩, fun _ hne => absurd trivial hne⟩

/-- A value. -/
theorem Decides.written {v : γ} {b : β} (hv : R v) (hb : b = write v) :
    Decides D fail write R True (.ok b : Except ε β) :=
  ⟨fun _ => ⟨v, hv, hb⟩, fun _ hne => absurd trivial hne⟩

theorem Decides.congr (h : Decides D fail write R S x) (hS : S ↔ S') :
    Decides D fail write R S' x :=
  ⟨fun hS' => h.packs (hS.mpr hS'), fun hD hne => h.traps hD (mt hS.mp hne)⟩

/-- The values can be described otherwise, where the program writes them. -/
theorem Decides.values {R' : γ → Prop} (h : Decides D fail write R S x)
    (hR : S → ∀ v, R v ↔ R' v) : Decides D fail write R' S x := by
  refine ⟨fun hS => ?_, h.traps⟩
  have hpacks := h.packs hS
  cases x with
  | ok b =>
    obtain ⟨v, hv, hb⟩ := hpacks
    exact ⟨v, (hR hS v).mp hv, hb⟩
  | error e => exact ⟨hpacks.1, fun v hv => hpacks.2 v ((hR hS v).mpr hv)⟩

/-- What has been written is put into something larger. -/
theorem Decides.map {k : β → β'} {write' : γ' → β'} {R' : γ' → Prop}
    (h : Decides D fail write R S x) (hwrite : ∀ v, R v → ∃ v', R' v' ∧ k (write v) = write' v')
    (hvalue : ∀ v', R' v' → ∃ v, R v) : Decides D fail write' R' S (x.map k) := by
  constructor
  · intro hS
    have hpacks := h.packs hS
    cases x with
    | ok b =>
      obtain ⟨v, hv, rfl⟩ := hpacks
      obtain ⟨v', hv', heq⟩ := hwrite v hv
      exact ⟨v', hv', heq⟩
    | error e =>
      refine ⟨hpacks.1, fun v' hv' => ?_⟩
      obtain ⟨v, hv⟩ := hvalue v' hv'
      exact hpacks.2 v hv
  · exact fun hD hne => (h.traps hD hne).map

/-- Other exceptions. -/
theorem Packs.mapError {ε' : Type*} (f : ε → ε') (h : Packs fail write R x) :
    Packs (f fail) write R (x.mapError f) := by
  cases x with
  | ok b => exact h
  | error e => exact ⟨congrArg f h.1, h.2⟩

theorem Traps.mapError {ε' : Type*} {f : ε → ε'} (hf : Function.Injective f)
    (h : Traps fail x) : Traps (f fail) (x.mapError f) := by
  obtain ⟨e, he, rfl⟩ := h
  exact ⟨f e, hf.ne he, rfl⟩

theorem Decides.mapError {ε' : Type*} {f : ε → ε'} (hf : Function.Injective f)
    (h : Decides D fail write R S x) : Decides D (f fail) write R S (x.mapError f) :=
  ⟨fun hS => (h.packs hS).mapError f, fun hD hne => (h.traps hD hne).mapError hf⟩

/-- The first part, and after it, if there is a value for the first, the second. -/
def andThen (x : Except ε β) (y : Except ε β') (k : β → β' → δ) : Except ε δ :=
  match x with
  | .error e => .error e
  | .ok b => y.map (k b)

/-- **Two parts, one after the other.**  The program comes to the second only if there is a value
for the first. -/
theorem Decides.andThen {y : Except ε β'} {write' : γ' → β'} {R' : γ' → Prop} {k : β → β' → δ}
    {writeBoth : δ' → δ} {RBoth : δ' → Prop} (hx : Decides D fail write R S x)
    (hy : (∃ v, R v) → Decides D fail write' R' S' y)
    (hwrite : ∀ v v', R v → R' v' → ∃ w, RBoth w ∧ k (write v) (write' v') = writeBoth w)
    (hvalue : ∀ w, RBoth w → (∃ v, R v) ∧ ∃ v', R' v') :
    Decides D fail writeBoth RBoth (S ∧ ((∃ v, R v) → S')) (andThen x y k) := by
  constructor
  · rintro ⟨hS, hS'⟩
    have hpacks := hx.packs hS
    cases x with
    | error e => exact ⟨hpacks.1, fun w hw => (hvalue w hw).1.elim hpacks.2⟩
    | ok b =>
      obtain ⟨v, hv, rfl⟩ := hpacks
      have hpacks' := (hy ⟨v, hv⟩).packs (hS' ⟨v, hv⟩)
      cases y with
      | error e => exact ⟨hpacks'.1, fun w hw => (hvalue w hw).2.elim hpacks'.2⟩
      | ok b' =>
        obtain ⟨v', hv', rfl⟩ := hpacks'
        exact hwrite v v' hv hv'
  · intro hD hne
    by_cases hS : S
    · have hpacks := hx.packs hS
      have hnot : ¬ ((∃ v, R v) → S') := fun hS' => hne ⟨hS, hS'⟩
      obtain ⟨⟨v, hv⟩, hS'⟩ := Classical.not_imp.mp hnot
      cases x with
      | error e => exact absurd hv (hpacks.2 v)
      | ok b =>
        obtain ⟨e, he, rfl⟩ := (hy ⟨v, hv⟩).traps hD hS'
        exact ⟨e, he, rfl⟩
    · obtain ⟨e, he, rfl⟩ := hx.traps hD hS
      exact ⟨e, he, rfl⟩

/-- A loop that writes something for each element, until it fails. -/
def forEach {α : Type*} (visit : Nat → α → Except ε (List β)) (i : Nat) :
    List α → Except ε (List β)
  | [] => .ok []
  | a :: l => Outcome.andThen (visit i a) (forEach visit (i + 1) l) (· ++ ·)

/-- All elements the loop comes to have `S`: those for which every element before has a value. -/
def AllReached {α : Type*} (R : α → γ → Prop) (S : α → Prop) (l : List α) : Prop :=
  ∀ before a after, l = before ++ a :: after → (∀ b ∈ before, ∃ v, R b v) → S a

theorem allReached_nil {α : Type*} (R : α → γ → Prop) (S : α → Prop) : AllReached R S [] :=
  fun _ _ _ h => absurd h (by simp)

theorem allReached_cons {α : Type*} {R : α → γ → Prop} {S : α → Prop} {a : α} {l : List α} :
    S a ∧ ((∃ v, R a v) → AllReached R S l) ↔ AllReached R S (a :: l) := by
  constructor
  · rintro ⟨hfirst, hrest⟩ before b after h hbefore
    cases before with
    | nil =>
      cases h
      exact hfirst
    | cons a' before =>
      cases h
      exact hrest (hbefore a List.mem_cons_self) before b after rfl
        fun c hc => hbefore c (List.mem_cons_of_mem _ hc)
  · refine fun h => ⟨h [] a l rfl fun b hb => (by cases hb), fun hv before b after hl hbefore => ?_⟩
    refine h (a :: before) b after (by rw [hl, List.cons_append]) fun c hc => ?_
    rcases List.mem_cons.mp hc with rfl | hc
    · exact hv
    · exact hbefore c hc

/-- **A loop over a list** writes the values of the elements. -/
theorem Decides.forEach {α : Type*} {write : γ → List β} {R : α → γ → Prop} {S : α → Prop}
    {visit : Nat → α → Except ε (List β)} {l : List α}
    (h : ∀ i, ∀ a ∈ l, Decides D fail write (R a) (S a) (visit i a)) (i : Nat) :
    Decides D fail (fun vs => vs.flatMap write) (List.Forall₂ R l) (AllReached R S l)
      (forEach visit i l) := by
  induction l generalizing i with
  | nil =>
    exact (Decides.written List.Forall₂.nil rfl).congr
      (iff_of_true trivial (allReached_nil R S))
  | cons a l ih =>
    have hboth : Decides D fail (fun vs => vs.flatMap write) (List.Forall₂ R (a :: l))
        (S a ∧ ((∃ v, R a v) → AllReached R S l)) (Outcome.forEach visit i (a :: l)) := by
      rw [Outcome.forEach]
      have hrest := ih (fun i b hb => h i b (List.mem_cons_of_mem _ hb)) (i + 1)
      refine Decides.andThen (h i a List.mem_cons_self) (fun _ => hrest)
        (fun v vs hv hvs => ?_) fun vs hvs => ?_
      · exact ⟨v :: vs, .cons hv hvs, List.flatMap_cons.symm⟩
      · cases hvs with
        | cons hv hvs => exact ⟨⟨_, hv⟩, _, hvs⟩
    exact hboth.congr allReached_cons

end

end Outcome
