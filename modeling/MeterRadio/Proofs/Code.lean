import Mathlib.Data.List.Basic

/-!
# Codes that can be told apart

A code writes values as lists of symbols. It is *prefix-free* if what stands at the front of a longer
list tells which value it is and where it ends. Such codes can be written one after another
(`PrefixFree.flatMap_injective`), with a closing symbol that no code word starts with
(`PrefixFree.flatMap_stop`), and every code becomes one by a closing symbol that it does not use
(`prefixFree_append_stop`).
-/

namespace MeterRadio

variable {α β : Type} {f : α → List β}

/-- A list is cut where a property of its symbols ends. -/
theorem append_inj_of_span {p : β → Bool} {xs ys r r' : List β} (hxs : ∀ b ∈ xs, p b = true)
    (hys : ∀ b ∈ ys, p b = true) (hr : ∀ b ∈ r.head?, p b = false)
    (hr' : ∀ b ∈ r'.head?, p b = false)
    (h : xs ++ r = ys ++ r') : xs = ys ∧ r = r' := by
  have hend (l : List β) (hl : ∀ b ∈ l.head?, p b = false) : l.takeWhile p = [] := by
    cases l with
    | nil => rfl
    | cons b l => rw [List.takeWhile_cons, hl b rfl, if_neg Bool.false_ne_true]
  have hspan := congrArg (List.takeWhile p) h
  rw [List.takeWhile_append_of_pos hxs, List.takeWhile_append_of_pos hys, hend r hr, hend r' hr',
    List.append_nil, List.append_nil] at hspan
  subst hspan
  exact ⟨rfl, List.append_cancel_left h⟩

/-- Code words can be told apart and cut off whatever follows. -/
def PrefixFree (f : α → List β) : Prop :=
  ∀ x y r r', f x ++ r = f y ++ r' → x = y ∧ r = r'

/-- A code that can be read back is prefix-free. -/
theorem prefixFree_of_reader {read : List β → Option (α × List β)}
    (h : ∀ x r, read (f x ++ r) = some (x, r)) : PrefixFree f := by
  intro x y r r' heq
  have hread := congrArg read heq
  rw [h, h] at hread
  cases hread
  exact ⟨rfl, rfl⟩

theorem prefixFree_append_stop {stop : β} [DecidableEq β] (hinj : Function.Injective f)
    (hstop : ∀ x, stop ∉ f x) : PrefixFree fun x => f x ++ [stop] := by
  intro x y r r' h
  have hother (z : α) : ∀ b ∈ f z, (b != stop) = true := by
    intro b hb
    rw [bne_iff_ne]
    rintro rfl
    exact hstop z hb
  have hself (l : List β) : ∀ b ∈ (stop :: l).head?, (b != stop) = false := by
    intro b hb
    cases hb
    exact bne_self_eq_false stop
  rw [List.append_assoc, List.append_assoc] at h
  obtain ⟨hword, hrest⟩ := append_inj_of_span (hother x) (hother y) (hself r) (hself r') h
  exact ⟨hinj hword, (List.cons.inj hrest).2⟩

namespace PrefixFree

theorem flatMap_injective (h : PrefixFree f) (hne : ∀ x, f x ≠ []) :
    Function.Injective fun xs : List α => xs.flatMap f := by
  intro xs ys heq
  dsimp only at heq
  induction xs generalizing ys with
  | nil =>
    cases ys with
    | nil => rfl
    | cons y ys =>
      rw [List.flatMap_nil, List.flatMap_cons] at heq
      exact absurd (List.append_eq_nil_iff.mp heq.symm).1 (hne y)
  | cons x xs ih =>
    cases ys with
    | nil =>
      rw [List.flatMap_nil, List.flatMap_cons] at heq
      exact absurd (List.append_eq_nil_iff.mp heq).1 (hne x)
    | cons y ys =>
      rw [List.flatMap_cons, List.flatMap_cons] at heq
      obtain ⟨rfl, hrest⟩ := h x y _ _ heq
      rw [ih hrest]

theorem flatMap_stop {stop : β} (h : PrefixFree f) (hhead : ∀ x, ∃ b bs, f x = b :: bs ∧ b ≠ stop) :
    PrefixFree fun xs : List α => xs.flatMap f ++ [stop] := by
  intro xs ys r r' heq
  dsimp only at heq
  induction xs generalizing ys with
  | nil =>
    cases ys with
    | nil => exact ⟨rfl, (List.cons.inj heq).2⟩
    | cons y ys =>
      obtain ⟨b, bs, hword, hne⟩ := hhead y
      rw [List.flatMap_cons, hword] at heq
      exact absurd (List.cons.inj heq).1.symm hne
  | cons x xs ih =>
    cases ys with
    | nil =>
      obtain ⟨b, bs, hword, hne⟩ := hhead x
      rw [List.flatMap_cons, hword] at heq
      exact absurd (List.cons.inj heq).1 hne
    | cons y ys =>
      rw [List.flatMap_cons, List.flatMap_cons, List.append_assoc, List.append_assoc, List.append_assoc,
        List.append_assoc] at heq
      obtain ⟨rfl, hrest⟩ := h x y _ _ heq
      rw [← List.append_assoc, ← List.append_assoc] at hrest
      obtain ⟨rfl, rfl⟩ := ih ys hrest
      exact ⟨rfl, rfl⟩

end PrefixFree

end MeterRadio
