import Rendr.Dgram.State
import Rendr.Lib.Ring
import Rendr.Lib.Run

/-!
# The redo list of a packet session as the code stores it

The DGRAMs a dying carrier handed back wait in a ring of the code's own, kept in enqueue-time
order: `redoPush` shifts the younger entries back by one slot and writes into the hole, `redoPop`
takes the head. `Snd` has the list itself.

* `toList_ringPush` — the ring refines the list of `Snd.redoPush`.
* `redo_order` — the ring holds what was pushed and not popped, by enqueue time and then by push.
-/

namespace Rendr.Dgram

open List

/-! ### The list -/

/-- A push goes behind every entry that is not younger, seen from the back. -/
lemma redoPush_split (r : Redo) (l : List Redo) :
    ∃ A B, l = A ++ B ∧ Snd.redoPush r l = A ++ r :: B ∧ (∀ b ∈ B, r.at < b.at) ∧
      ∀ a ∈ A.getLast?, a.at ≤ r.at := by
  induction l using List.reverseRecOn with
  | nil => exact ⟨[], [], rfl, rfl, by simp, by simp⟩
  | append_singleton l x ih =>
    unfold Snd.redoPush at ih ⊢
    rw [reverse_append, reverse_singleton, singleton_append, Snd.redoInsert]
    split
    next hlt =>
      obtain ⟨A, B, hl, hp, hB, hA⟩ := ih
      refine ⟨A, B ++ [x], by rw [hl, append_assoc], ?_, fun b hb => ?_, hA⟩
      · rw [reverse_cons, hp, append_assoc, cons_append]
      rcases mem_append.mp hb with hb | hb
      · exact hB b hb
      · rw [mem_singleton.mp hb]
        exact hlt
    next hge =>
    refine ⟨l ++ [x], [], (append_nil _).symm, by simp, by simp, fun a ha => ?_⟩
    rw [getLast?_append] at ha
    cases ha
    exact not_lt.mp hge

lemma redoPush_perm (r : Redo) (l : List Redo) : (Snd.redoPush r l).Perm (r :: l) := by
  obtain ⟨A, B, hl, hp, -⟩ := redoPush_split r l
  rw [hp, hl]
  exact perm_middle

lemma redoPush_snoc (r x : Redo) (l : List Redo) : Snd.redoPush r (l ++ [x]) =
    if r.at < x.at then Snd.redoPush r l ++ [x] else l ++ [x, r] := by
  unfold Snd.redoPush
  rw [reverse_append, reverse_singleton, singleton_append, Snd.redoInsert]
  split <;> simp

/-! ### The ring -/

instance : Inhabited Redo := ⟨⟨0, ⟨0, []⟩, 0, 0, false⟩⟩

/-- The loop of `redoPush` from slot `k` down: a younger entry moves up, `r` takes the hole. -/
def ringShift (g : Rendr.Ring Redo) (r : Redo) : Nat → Rendr.Ring Redo
  | 0 => g.set 0 r
  | k + 1 => if r.at < (g.get k).at then ringShift (g.set (k + 1) (g.get k)) r k else g.set (k + 1) r

/-- `redoPush`; the first ring has `redoMin = 2 ^ 4` slots. -/
def ringPush (g : Rendr.Ring Redo) (r : Redo) : Rendr.Ring Redo :=
  ringShift ((g.growFrom 4).room (g.growFrom_room 4)) r g.n

/-- The entries before the hole at slot `k` take `r` in, those behind it stay. -/
lemma toList_ringShift (r : Redo) {k : Nat} {g : Rendr.Ring Redo} {A B : List Redo} {x : Redo}
    (hg : g.toList = A ++ x :: B) (hk : A.length = k) :
    (ringShift g r k).toList = Snd.redoPush r A ++ B := by
  induction k generalizing g A B x with
  | zero =>
    have hn : 0 < g.n := by rw [← g.length_toList, hg]; simp
    rw [length_eq_zero_iff.mp hk, nil_append] at hg
    rw [ringShift, g.toList_set r hn, hg, length_eq_zero_iff.mp hk]
    rfl
  | succ k ih =>
    have hn : k + 1 < g.n := by rw [← g.length_toList, hg]; simp; omega
    obtain ⟨A, a, rfl⟩ : ∃ A' a, A = A' ++ [a] := by
      rcases eq_nil_or_concat A with rfl | ⟨A', a, rfl⟩
      · cases hk
      · exact ⟨A', a, by simp⟩
    have hA : A.length = k := by simpa using hk
    -- slot `k` has the last entry before the hole
    have ha : g.get k = a := by
      have := g.getElem?_toList (show k < g.n by omega)
      rw [hg, ← hA] at this
      rw [← hA]
      simpa using this.symm
    have hset : ∀ y, (g.set (k + 1) y).toList = A ++ a :: y :: B := fun y => by
      rw [g.toList_set y hn, hg, ← hk, set_append_right _ _ le_rfl]
      simp
    rw [ringShift, ha, redoPush_snoc]
    split
    · rw [ih (hset a) hA]
      simp
    · rw [hset r]
      simp

/-- **The ring refines the list.** -/
lemma toList_ringPush (g : Rendr.Ring Redo) (r : Redo) :
    (ringPush g r).toList = Snd.redoPush r g.toList := by
  unfold ringPush
  have hroom := (g.growFrom 4).toList_room (g.growFrom_room 4)
  rw [g.toList_growFrom] at hroom
  rw [toList_ringShift r hroom g.length_toList, append_nil]

/-! ### Runs -/

/-- The ring, with what was pushed and what `redoPop` returned, in order. -/
structure Redos where
  ring : Rendr.Ring Redo
  pushed : List Redo
  popped : List Redo

inductive RedoEv where
  | push (r : Redo)
  | pop

/-- The callers pop only while the list holds something. -/
def Redos.step (s : Redos) : RedoEv → Redos
  | .push r => { s with ring := ringPush s.ring r, pushed := s.pushed ++ [r] }
  | .pop =>
    if s.ring.n = 0 then s
    else { s with ring := s.ring.popFront.2, popped := s.popped ++ [s.ring.popFront.1] }

/-- `a` stands before `b`: queued earlier, or at the same time and pushed earlier. -/
def Before (a b : Redo × Nat) : Prop := a.1.at < b.1.at ∨ a.1.at = b.1.at ∧ a.2 < b.2

/-- The ring holds the numbered entries `live`, the popped ones are `gone`. -/
structure Redos.Inv (s : Redos) (live gone : List (Redo × Nat)) : Prop where
  ring : s.ring.toList = live.map Prod.fst
  popped : s.popped = gone.map Prod.fst
  perm : (gone ++ live).Perm s.pushed.zipIdx
  order : live.Pairwise Before

variable {s : Redos} {live gone : List (Redo × Nat)}

lemma Redos.Inv.push (h : s.Inv live gone) (r : Redo) :
    ∃ live', (s.step (.push r)).Inv live' gone := by
  obtain ⟨A, B, hl, hp, hB, hA⟩ := redoPush_split r s.ring.toList
  rw [h.ring] at hl
  obtain ⟨C, D, rfl, rfl, rfl⟩ := map_eq_append_iff.mp hl
  obtain ⟨hC, hD, hCD⟩ := pairwise_append.mp h.order
  -- whatever stands before the hole was queued no later, and was pushed before
  have hbefore : ∀ c ∈ C, c.1.at ≤ r.at := by
    rcases eq_nil_or_concat C with rfl | ⟨C', z, rfl⟩
    · simp
    rw [concat_eq_append] at hC hA ⊢
    have hz : z.1.at ≤ r.at := hA z.1 (by simp)
    intro c hc
    rcases mem_append.mp hc with hc | hc
    · rcases (pairwise_append.mp hC).2.2 c hc z (by simp) with hlt | ⟨heq, -⟩
      · exact le_trans (le_of_lt hlt) hz
      · exact heq ▸ hz
    · rw [mem_singleton.mp hc]
      exact hz
  have hnum : ∀ c ∈ C, c.2 < s.pushed.length := fun c hc => by
    have hmem := h.perm.mem_iff.mp (mem_append_right gone (mem_append_left D hc))
    have := snd_lt_of_mem_zipIdx hmem
    omega
  refine ⟨C ++ (r, s.pushed.length) :: D, ?_, h.popped, ?_, pairwise_append.mpr ⟨hC, ?_, ?_⟩⟩
  · show (ringPush s.ring r).toList = _
    rw [toList_ringPush, hp]
    simp
  · show List.Perm _ (s.pushed ++ [r]).zipIdx
    rw [zipIdx_append]
    refine List.Perm.trans ?_ (h.perm.append_right _)
    rw [append_assoc gone, append_assoc C]
    refine (List.Perm.append_left C ?_).append_left gone
    simpa using (perm_append_singleton (r, s.pushed.length) D).symm
  · refine pairwise_cons.mpr ⟨fun d hd => .inl (hB d.1 (mem_map_of_mem hd)), hD⟩
  intro c hc d hd
  rcases mem_cons.mp hd with rfl | hd
  · rcases Int.lt_or_eq_of_le (hbefore c hc) with hlt | heq
    · exact .inl hlt
    · exact .inr ⟨heq, hnum c hc⟩
  · exact hCD c hc d hd

lemma Redos.Inv.pop (h : s.Inv live gone) : ∃ live' gone', (s.step .pop).Inv live' gone' := by
  unfold Redos.step
  simp only
  split
  · exact ⟨live, gone, h⟩
  next hn =>
  have hring := s.ring.popFront_eq (Nat.pos_of_ne_zero hn)
  rw [h.ring] at hring
  cases live with
  | nil => cases hring
  | cons a live =>
    obtain ⟨h1, h2⟩ := List.cons.inj hring
    refine ⟨live, gone ++ [a], h2.symm, ?_, ?_, (pairwise_cons.mp h.order).2⟩
    · show s.popped ++ [s.ring.popFront.1] = _
      rw [h.popped, ← h1]
      simp
    · rw [append_assoc]
      exact h.perm

/-- **Redo list order**: after every sequence of pushes and pops the ring holds exactly the entries
pushed and not popped, by enqueue time and, at equal times, in push order; each was pushed once,
and `redoAt(0)` is the oldest. -/
theorem redo_order (evs : List RedoEv) :
    let s := runFrom Redos.step ⟨Rendr.Ring.empty, [], []⟩ evs
    (∃ live gone : List (Redo × Nat), s.ring.toList = live.map Prod.fst ∧
      s.popped = gone.map Prod.fst ∧ (gone ++ live).Perm s.pushed.zipIdx ∧ live.Pairwise Before) ∧
      ∀ x ∈ s.ring.toList, (s.ring.get 0).at ≤ x.at := by
  intro s
  obtain ⟨live, gone, h⟩ : ∃ live gone, s.Inv live gone := by
    refine runFrom_inv (fun s : Redos => ∃ live gone, s.Inv live gone) ⟨[], [], rfl, rfl, .nil, .nil⟩ ?_
    rintro s ev - ⟨live, gone, h⟩
    cases ev with
    | push r =>
      obtain ⟨live', h'⟩ := h.push r
      exact ⟨live', gone, h'⟩
    | pop => exact h.pop
  refine ⟨⟨live, gone, h.ring, h.popped, h.perm, h.order⟩, fun x hx => ?_⟩
  have hpos : 0 < s.ring.n := by
    rw [← s.ring.length_toList]
    exact length_pos_of_mem hx
  have h0 := s.ring.getElem?_toList hpos
  rw [h.ring] at hx h0
  cases live with
  | nil => cases hx
  | cons a live =>
    have h0 : a.1 = s.ring.get 0 := by simpa using h0
    rw [← h0]
    rcases mem_cons.mp hx with rfl | hx
    · exact le_rfl
    obtain ⟨b, hb, rfl⟩ := mem_map.mp hx
    rcases (pairwise_cons.mp h.order).1 b hb with hlt | ⟨heq, -⟩
    · exact le_of_lt hlt
    · exact le_of_eq heq

end Rendr.Dgram
