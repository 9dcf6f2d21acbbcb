import Mathlib.Data.List.Basic

/-!
# Guarded moves with outputs

A machine given by elementary moves: each may be taken where its guard holds, changes the state
and emits a list of outputs. `Machine.Steps` are the sequences of moves from a given set with all
they emit, in order. A function of a larger program is described once by such a sequence; what
every move preserves, together with what was emitted, the function preserves (`Steps.inv`).
-/

namespace Rendr

/-- Elementary moves `μ` on states `σ`, emitting `φ`. -/
structure Machine (σ μ φ : Type) where
  guard : σ → μ → Prop
  apply : σ → μ → σ
  out : σ → μ → List φ

namespace Machine

variable {σ μ φ : Type} {M : Machine σ μ φ}

/-- A sequence of moves from `ok`, with what they emit. -/
inductive Steps (M : Machine σ μ φ) (ok : μ → Prop) (s : σ) : List φ → σ → Prop
  | refl : Steps M ok s [] s
  | move {fs : List φ} {t : σ} (h : Steps M ok s fs t) (m : μ) (hok : ok m) (hg : M.guard t m) :
    Steps M ok s (fs ++ M.out t m) (M.apply t m)

namespace Steps

variable {ok ok' : μ → Prop} {s t u : σ} {fs gs : List φ}

lemma one (m : μ) (hok : ok m) (hg : M.guard s m) : Steps M ok s (M.out s m) (M.apply s m) :=
  Steps.refl.move m hok hg

lemma trans (h : Steps M ok s fs t) (h' : Steps M ok t gs u) : Steps M ok s (fs ++ gs) u := by
  induction h' with
  | refl =>
    rw [List.append_nil]
    exact h
  | move _ m hok hg ih =>
    rw [← List.append_assoc]
    exact ih.move m hok hg

lemma mono (h : Steps M ok s fs t) (hok : ∀ m, ok m → ok' m) : Steps M ok' s fs t := by
  induction h with
  | refl => exact .refl
  | move _ m hm hg ih => exact ih.move m (hok m hm) hg

/-- The invariant rule, over the state and what was emitted so far. -/
lemma inv (h : Steps M ok s fs t) (Inv : List φ → σ → Prop) (h0 : Inv [] s)
    (hmove : ∀ fs t m, ok m → M.guard t m → Inv fs t → Inv (fs ++ M.out t m) (M.apply t m)) :
    Inv fs t := by
  induction h with
  | refl => exact h0
  | move _ m hok hg ih => exact hmove _ _ m hok hg ih

end Steps

end Machine

end Rendr
