import Mathlib.Data.List.Basic

/-!
# Runs of a deterministic step function

The state a list of events leads to, and the two induction rules every invariant proof uses: an
invariant that each step preserves holds after every run (`runFrom_inv`), and so does one that
each step preserves under a condition on the step, along every run whose steps all meet it
(`runFrom_along`). `guard` is the rule for a step that is only taken under a condition.
-/

namespace Rendr

variable {σ ε : Type} {step : σ → ε → σ}

/-- The state after the events `evs`. -/
def runFrom (step : σ → ε → σ) (s : σ) (evs : List ε) : σ := evs.foldl step s

@[simp] lemma runFrom_cons (s : σ) (ev : ε) (evs : List ε) :
    runFrom step s (ev :: evs) = runFrom step (step s ev) evs := rfl

lemma runFrom_append (s : σ) (evs evs' : List ε) :
    runFrom step s (evs ++ evs') = runFrom step (runFrom step s evs) evs' :=
  List.foldl_append ..

/-- A guarded step keeps what its body keeps. -/
lemma guard {P : σ → Prop} {c : Prop} [Decidable c] {s t : σ} (h : P s) (ht : c → P t) :
    P (if c then t else s) := by
  split
  next hc => exact ht hc
  · exact h

/-- Every step of the run meets `Ok` in the state it starts from. -/
def Along (step : σ → ε → σ) (Ok : σ → ε → Prop) : σ → List ε → Prop
  | _, [] => True
  | s, ev :: evs => Ok s ev ∧ Along step Ok (step s ev) evs

variable {Ok : σ → ε → Prop}

/-- The two parts of a run whose steps all meet `Ok`. -/
lemma along_append {s : σ} {evs evs' : List ε} (h : Along step Ok s (evs ++ evs')) :
    Along step Ok s evs ∧ Along step Ok (runFrom step s evs) evs' := by
  induction evs generalizing s with
  | nil => exact ⟨trivial, h⟩
  | cons ev evs ih => exact ⟨⟨h.1, (ih h.2).1⟩, (ih h.2).2⟩

/-- What each step preserves when it meets `Ok`, a run whose steps all meet `Ok` preserves. -/
lemma runFrom_along (Inv : σ → Prop) {s : σ} {evs : List ε} (h0 : Inv s)
    (hstep : ∀ s ev, Ok s ev → Inv s → Inv (step s ev)) (hok : Along step Ok s evs) :
    Inv (runFrom step s evs) := by
  induction evs generalizing s with
  | nil => exact h0
  | cons ev evs ih => exact ih (hstep s ev hok.1 h0) hok.2

/-- What each step preserves, every run preserves. -/
lemma runFrom_inv (Inv : σ → Prop) {s : σ} {evs : List ε} (h0 : Inv s)
    (hstep : ∀ s, ∀ ev ∈ evs, Inv s → Inv (step s ev)) : Inv (runFrom step s evs) := by
  induction evs generalizing s with
  | nil => exact h0
  | cons ev evs ih =>
    exact ih (hstep s ev (List.mem_cons_self ..) h0) fun s' ev' h =>
      hstep s' ev' (List.mem_cons_of_mem _ h)

end Rendr
