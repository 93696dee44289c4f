import Mathlib.Data.List.Induction

/-!
# Runs of a transition function

A system is a step function `step : σ → α → σ` on states and actions; `Run step ok s₀ s` says
that `s` is reached from `s₀` by actions each of which was admitted (`ok`) in the state it was
taken in.

* `Run.invariant` — what holds at the start and survives admitted steps holds throughout.
* `Admitted` — the same for a given list of actions; decidable when `ok` is.
* `Happened` — somewhere in a list of actions a given thing was done, and `Since` — something has
  held from then on; `Admitted.history` is the induction for statements about the past.
* `Run.simulate` — a relation to an abstract state which every admitted step can follow, the
  abstract state growing along a preorder, can be followed through a whole run.
-/

set_option autoImplicit false

namespace Transition

variable {σ α γ : Type} {step : σ → α → σ} {ok ok' : σ → α → Prop} {s₀ s₁ s₂ : σ}

inductive Run (step : σ → α → σ) (ok : σ → α → Prop) (s₀ : σ) : σ → Prop where
  | refl : Run step ok s₀ s₀
  | step {s : σ} {a : α} : Run step ok s₀ s → ok s a → Run step ok s₀ (step s a)

namespace Run

theorem trans (h₁ : Run step ok s₀ s₁) (h₂ : Run step ok s₁ s₂) : Run step ok s₀ s₂ := by
  induction h₂ with
  | refl => exact h₁
  | step _ hok ih => exact ih.step hok

theorem mono (hok : ∀ s a, ok s a → ok' s a) (h : Run step ok s₀ s₁) : Run step ok' s₀ s₁ := by
  induction h with
  | refl => exact .refl
  | step _ ha ih => exact ih.step (hok _ _ ha)

/-- What an invariant guarantees about the next action may be assumed of a run. -/
theorem strengthen {I : σ → Prop} (hstep : ∀ s a, I s → ok s a → I (step s a))
    (hok : ∀ s a, I s → ok s a → ok' s a) (h : Run step ok s₀ s₁) (h₀ : I s₀) :
    Run step ok' s₀ s₁ ∧ I s₁ := by
  induction h with
  | refl => exact ⟨.refl, h₀⟩
  | step _ ha ih => exact ⟨ih.1.step (hok _ _ ih.2 ha), hstep _ _ ih.2 ha⟩

/-- An inductive invariant holds in every state of a run. -/
theorem invariant {I : σ → Prop} (hstep : ∀ s a, I s → ok s a → I (step s a))
    (h : Run step ok s₀ s₁) (h₀ : I s₀) : I s₁ := by
  induction h with
  | refl => exact h₀
  | step _ hok ih => exact hstep _ _ ih hok

/-- A simulation by a growing abstract state extends along a run. -/
theorem simulate (Sim : σ → γ → Prop) (le : γ → γ → Prop) (hrefl : ∀ g, le g g)
    (htrans : ∀ g₁ g₂ g₃, le g₁ g₂ → le g₂ g₃ → le g₁ g₃)
    (hstep : ∀ s a g, Sim s g → ok s a → ∃ g', le g g' ∧ Sim (step s a) g')
    (h : Run step ok s₀ s₁) {g : γ} (h₀ : Sim s₀ g) : ∃ g', le g g' ∧ Sim s₁ g' := by
  induction h with
  | refl => exact ⟨g, hrefl g, h₀⟩
  | step _ hok ih =>
    obtain ⟨g₁, hle₁, hsim₁⟩ := ih
    obtain ⟨g₂, hle₂, hsim₂⟩ := hstep _ _ g₁ hsim₁ hok
    exact ⟨g₂, htrans _ _ _ hle₁ hle₂, hsim₂⟩

end Run

/-! ## Given lists of actions -/

/-- Every action of the list is admitted in the state it is taken in. -/
def Admitted (step : σ → α → σ) (ok : σ → α → Prop) : σ → List α → Prop
  | _, [] => True
  | s, a :: as => ok s a ∧ Admitted step ok (step s a) as

instance Admitted.decidable [h : ∀ s a, Decidable (ok s a)] :
    ∀ (s : σ) (as : List α), Decidable (Admitted step ok s as)
  | _, [] => isTrue trivial
  | s, a :: as => @instDecidableAnd _ _ (h s a) (Admitted.decidable (step s a) as)

theorem Admitted.congr (h : ∀ s a, ok s a ↔ ok' s a) :
    ∀ {as : List α} {s : σ}, Admitted step ok s as ↔ Admitted step ok' s as
  | [], _ => Iff.rfl
  | _ :: _, _ => and_congr (h _ _) (Admitted.congr h)

/-- Two conditions on actions that agree as long as an invariant holds, which they preserve. -/
theorem Admitted.congr_of_invariant {I : σ → Prop} {good fine : σ → α → Prop}
    (hiff : ∀ s a, I s → ok s a → (good s a ↔ fine s a))
    (hstep : ∀ s a, I s → ok s a → fine s a → I (step s a)) :
    ∀ {as : List α} {s : σ}, I s → Admitted step ok s as →
      (Admitted step good s as ↔ Admitted step fine s as)
  | [], _, _, _ => Iff.rfl
  | a :: as, s, hs, h => by
    have hhead := hiff s a hs h.1
    constructor
    · rintro ⟨hgood, hrest⟩
      have hfine := hhead.mp hgood
      have hnext := hstep s a hs h.1 hfine
      exact ⟨hfine, (Admitted.congr_of_invariant hiff hstep hnext h.2).mp hrest⟩
    · rintro ⟨hfine, hrest⟩
      have hnext := hstep s a hs h.1 hfine
      exact ⟨hhead.mpr hfine, (Admitted.congr_of_invariant hiff hstep hnext h.2).mpr hrest⟩

theorem Admitted.of_true : ∀ (as : List α) {s : σ}, Admitted step (fun _ _ => True) s as
  | [], _ => True.intro
  | _ :: as, _ => ⟨True.intro, Admitted.of_true as⟩

theorem Admitted.run : ∀ (as : List α) {s : σ}, Admitted step ok s as →
    Run step ok s (as.foldl step s)
  | [], _, _ => .refl
  | _ :: as, _, h => (Run.step .refl h.1).trans (Admitted.run as h.2)

/-- Some action of the list was taken in a state where `Q` held of it. -/
def Happened (step : σ → α → σ) (Q : σ → α → Prop) : σ → List α → Prop
  | _, [] => False
  | s, a :: as => Q s a ∨ Happened step Q (step s a) as

instance Happened.decidable {Q : σ → α → Prop} [h : ∀ s a, Decidable (Q s a)] :
    ∀ (s : σ) (as : List α), Decidable (Happened step Q s as)
  | _, [] => isFalse id
  | s, a :: as => @instDecidableOr _ _ (h s a) (Happened.decidable (step s a) as)

theorem Admitted.append {bs : List α} : ∀ {as : List α} {s : σ},
    Admitted step ok s (as ++ bs) ↔ Admitted step ok s as ∧ Admitted step ok (as.foldl step s) bs
  | [], _ => by simp [Admitted]
  | b :: as, s => by
    show ok s b ∧ Admitted step ok (step s b) (as ++ bs) ↔ _
    rw [Admitted.append, ← and_assoc]
    rfl

theorem Admitted.snoc {a : α} {as : List α} {s : σ} :
    Admitted step ok s (as ++ [a]) ↔ Admitted step ok s as ∧ ok (as.foldl step s) a := by
  rw [Admitted.append]
  exact and_congr_right fun _ => ⟨And.left, fun h => ⟨h, trivial⟩⟩

theorem Happened.snoc {Q : σ → α → Prop} {a : α} : ∀ {as : List α} {s : σ},
    Happened step Q s (as ++ [a]) ↔ Happened step Q s as ∨ Q (as.foldl step s) a
  | [], _ => by simp [Happened]
  | b :: as, s => by
    show Q s b ∨ Happened step Q (step s b) (as ++ [a]) ↔ _
    rw [Happened.snoc, ← or_assoc]
    rfl

/-- Some action of the list was taken where `Q` held of it, and `K` has held ever since. -/
def Since (step : σ → α → σ) (Q : σ → α → Prop) (K : σ → Prop) (s : σ) (as : List α) : Prop :=
  ∃ before a after, as = before ++ a :: after ∧ Q (before.foldl step s) a ∧
    ∀ bs, bs <+: after → K ((before ++ a :: bs).foldl step s)

theorem Since.start {Q : σ → α → Prop} {K : σ → Prop} {s : σ} {as : List α} {a : α}
    (hQ : Q (as.foldl step s) a) (hK : K (step (as.foldl step s) a)) :
    Since step Q K s (as ++ [a]) := by
  refine ⟨as, a, [], rfl, hQ, fun bs hbs => ?_⟩
  rw [List.prefix_nil.mp hbs, List.foldl_append]
  exact hK

theorem Since.keep {Q : σ → α → Prop} {K : σ → Prop} {s : σ} {as : List α} {a : α}
    (h : Since step Q K s as) (hK : K (step (as.foldl step s) a)) :
    Since step Q K s (as ++ [a]) := by
  obtain ⟨before, b, after, rfl, hQ, hkept⟩ := h
  refine ⟨before, b, after ++ [a], by simp, hQ, fun bs hbs => ?_⟩
  rcases List.prefix_concat_iff.mp hbs with rfl | hbs
  · have hsplit : before ++ b :: (after ++ [a]) = (before ++ b :: after) ++ [a] := by simp
    rw [hsplit, List.foldl_append]
    exact hK
  · exact hkept bs hbs

/-- What holds at the start and is carried by every admitted action, the actions so far being
known, holds after the list. -/
theorem Admitted.history {I : List α → σ → Prop} (h₀ : I [] s₀)
    (hstep : ∀ as a, I as (as.foldl step s₀) → ok (as.foldl step s₀) a →
      I (as ++ [a]) (step (as.foldl step s₀) a)) (as : List α) (h : Admitted step ok s₀ as) :
    I as (as.foldl step s₀) := by
  induction as using List.reverseRecOn with
  | nil => exact h₀
  | append_singleton as a ih =>
    rw [Admitted.snoc] at h
    rw [List.foldl_append]
    exact hstep _ _ (ih h.1) h.2

end Transition
