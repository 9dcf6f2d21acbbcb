import Mathlib.Data.List.Nodup
import Rendr.Mux.Ready

/-!
# A ready view is in one place

One equation carries the ready set: the entries of a view in the ring, in the scratch and in the
hands of a goroutine that pushes it next are one while its flag is set, and none while it is not
(`Inv.place`). Every push therefore finds room, and a Wake that completed leaves the flag set.

* `State.Inv` — the invariant, kept by every step of an orderly run.
* `ready_set` — what follows from it in every state of such a run.
* `ring_holds_twice`, `go_frame_lost` — the two steps of the writer that break it: the second call
  of a resumed turn clears the flag of a view the ring already holds, and the drop of a held view
  clears the flag that the go frame found set.
-/

namespace Rendr.Mux.Ready

open Function List

/-- The writer's pushes of `v` that come next. -/
def Pc.pushes : Pc → Nat → Nat
  | .push v, x => if v = x then 1 else 0
  | _, _ => 0

namespace State

variable {maxViews : Nat} {s s' : State} {v : Nat}

/-- The entries of a view: in the ring, in the scratch, and pushes that come next. -/
def loc (s : State) (v : Nat) : Nat :=
  s.ring.count v + s.scratch.count v + s.wakers.count v + s.pc.pushes v

/-- The flags of one view are consistent. -/
structure View.Ok (w : View) (isLive : Prop) : Prop where
  fill : w.fillOK = true → w.inTable = true ∧ w.closed = false
  table : w.inTable = true → w.used = true
  counted : w.used = true → w.finished = false → isLive
  fin : w.finished = true → w.closed = true
  unused : w.used = false → ¬isLive
  held : w.held = true → w.closed = false → w.inTable = true
  /-- No Wake is lost. -/
  woken : w.woken = true → w.fillOK = true → w.ready = true

/-- The writer's slots. -/
structure Slots (s : State) : Prop where
  waiting : ∀ v, s.pc = .chosen v ∨ s.pc = .dropping v → v ∈ s.scratch
  served : ∀ v, s.pc = .turn v ∨ s.pc = .stay v ∨ s.pc = .push v → v ∉ s.scratch
  idle : s.pc = .idle → s.scratch = []

/-- **The invariant of the ready set.** -/
structure Inv (maxViews : Nat) (s : State) : Prop where
  place : ∀ v, s.loc v = if (s.views v).ready then 1 else 0
  view : ∀ v, View.Ok (s.views v) (v ∈ s.live)
  /-- The ring holds views that have not left it for good. -/
  ring : ∀ v ∈ s.ring, (s.views v).used = true ∧ (s.views v).finished = false
  nodup : s.live.Nodup
  cap : s.live.length ≤ max maxViews 1
  slots : s.Slots
  room : s.overflow = false

section

variable (h : s.Inv maxViews)
include h

/-- One view and its entries change. -/
lemma Inv.move (v : Nat) {w : View} (hviews : s'.views = update s.views v w)
    (hlive : s'.live = s.live) (hroom : s'.overflow = false)
    (hother : ∀ x, x ≠ v → s'.loc x = s.loc x) (hplace : s'.loc v = if w.ready then 1 else 0)
    (hview : View.Ok w (v ∈ s.live)) (hring : ∀ x ∈ s'.ring, x ∈ s.ring ∨ x = v)
    (hringv : v ∈ s'.ring → w.used = true ∧ w.finished = false) (hslots : s'.Slots) :
    s'.Inv maxViews where
  place x := by
    by_cases hx : x = v
    · subst hx
      rw [hviews, update_self]
      exact hplace
    · rw [hviews, update_of_ne hx, hother x hx]
      exact h.place x
  view x := by
    rw [hviews, hlive]
    by_cases hx : x = v
    · subst hx
      rw [update_self]
      exact hview
    · rw [update_of_ne hx]
      exact h.view x
  ring x hx := by
    rw [hviews]
    by_cases hxv : x = v
    · subst hxv
      rw [update_self]
      exact hringv hx
    · rw [update_of_ne hxv]
      exact h.ring x ((hring x hx).resolve_right hxv)
  nodup := hlive ▸ h.nodup
  cap := hlive ▸ h.cap
  slots := hslots
  room := hroom

lemma Inv.ring_nodup : s.ring.Nodup := by
  refine nodup_iff_count_le_one.mpr fun v => ?_
  have hplace := h.place v
  have hle : (if (s.views v).ready then 1 else 0) ≤ 1 := by split <;> omega
  unfold loc at hplace
  omega

/-- The ring has room for every view that has an entry elsewhere or none. -/
lemma Inv.ring_lt (hv : v ∉ s.ring) (hused : (s.views v).used = true)
    (hfin : (s.views v).finished = false) : s.ring.length < maxViews + 1 := by
  have hsub : v :: s.ring ⊆ s.live := by
    intro x hx
    rcases mem_cons.mp hx with rfl | hx
    · exact (h.view x).counted hused hfin
    · exact (h.view x).counted (h.ring x hx).1 (h.ring x hx).2
  have hlen := (nodup_cons.mpr ⟨hv, h.ring_nodup⟩).length_le_of_subset hsub
  have hcap := h.cap
  rw [length_cons] at hlen
  omega

lemma Inv.notMem_of_notReady (hr : (s.views v).ready = false) : s.loc v = 0 := by
  rw [h.place v, hr]
  rfl

lemma Inv.fill_used (hf : (s.views v).fillOK = true) :
    (s.views v).used = true ∧ (s.views v).finished = false := by
  obtain ⟨ht, hc⟩ := (h.view v).fill hf
  refine ⟨(h.view v).table ht, ?_⟩
  by_contra hfin
  rw [(h.view v).fin (by simpa using hfin)] at hc
  cases hc

/-! ### Sections of the trunk's lock -/

/-- The flags of a view change, its entries do not. -/
lemma Inv.flags (f : View → View) (hr : (f (s.views v)).ready = (s.views v).ready)
    (hview : View.Ok (f (s.views v)) (v ∈ s.live))
    (hring : v ∈ s.ring → (f (s.views v)).used = true ∧ (f (s.views v)).finished = false) :
    (s.upd v f).Inv maxViews :=
  h.move v rfl rfl h.room (fun _ _ => rfl) ((h.place v).trans (by rw [hr])) hview
    (fun _ hx => .inl hx) hring { h.slots with }

/-- A view enters the ring, its flag set in the same section. -/
lemma Inv.enter (f : View → View) (hr : (s.views v).ready = false)
    (hview : View.Ok { f (s.views v) with ready := true } (v ∈ s.live))
    (hused : (s.views v).used = true ∧ (s.views v).finished = false)
    (hused' : (f (s.views v)).used = true ∧ (f (s.views v)).finished = false) :
    (((s.upd v f).setReady v true).pushReady maxViews v).Inv maxViews := by
  have hloc := h.notMem_of_notReady hr
  unfold loc at hloc
  have hv : v ∉ s.ring := fun hm => by
    have := count_pos_iff.mpr hm
    omega
  have hlt := h.ring_lt hv hused.1 hused.2
  have hpush : (((s.upd v f).setReady v true).pushReady maxViews v) =
      { s with
        views := update s.views v { f (s.views v) with ready := true }
        ring := s.ring ++ [v] } := by
    have hno : ¬maxViews + 1 ≤ s.ring.length := by omega
    simp [pushReady, setReady, upd, hno]
  rw [hpush]
  refine h.move v rfl rfl h.room (fun x hx => ?_) ?_ hview ?_ (fun _ => hused')
    { h.slots with }
  · simp [loc, count_append, Ne.symm hx]
  · simp only [loc, count_append, count_cons_self, count_nil]
    simp only [if_true]
    omega
  intro x hx
  rcases mem_append.mp hx with hx | hx
  · exact .inl hx
  · exact .inr (mem_singleton.mp hx)

lemma Inv.readyLocked (v : Nat) : (s.readyLocked maxViews v).Inv maxViews := by
  refine guard h fun hc => ?_
  simp only [Bool.and_eq_true, Bool.not_eq_true'] at hc
  have hw := h.view v
  have := h.enter id hc.2 { hw with woken := fun _ _ => rfl }
    (h.fill_used hc.1) (h.fill_used hc.1)
  simpa [upd, setReady] using this

/-- A view becomes fillable and is readied in the same section: no Wake it missed is lost. -/
lemma Inv.refill (f : View → View) (hr : (f (s.views v)).ready = (s.views v).ready)
    (hf : (f (s.views v)).fillOK = true)
    (hview : View.Ok { f (s.views v) with ready := true } (v ∈ s.live))
    (hused : (s.views v).used = true ∧ (s.views v).finished = false)
    (hused' : (f (s.views v)).used = true ∧ (f (s.views v)).finished = false) :
    ((s.upd v f).readyLocked maxViews v).Inv maxViews := by
  cases hrv : (s.views v).ready with
  | true =>
    have hsame : (s.upd v f).readyLocked maxViews v = s.upd v f := by
      simp [State.readyLocked, upd, hr, hrv]
    rw [hsame]
    refine h.flags f hr { hview with woken := fun _ _ => hr.trans hrv } fun _ => hused'
  | false =>
    have hpush : (s.upd v f).readyLocked maxViews v =
        ((s.upd v f).setReady v true).pushReady maxViews v := by
      simp [State.readyLocked, upd, hr, hrv, hf]
    rw [hpush]
    exact h.enter f hrv hview hused hused'

end

lemma unready_eq : s.unready v =
    { s with
      views := update s.views v
        { s.views v with ready := if v ∈ s.ring then false else (s.views v).ready }
      ring := s.ring.filter (· ≠ v) } := by
  unfold unready
  split
  · rfl
  rename_i hv
  have : s.ring.filter (· ≠ v) = s.ring := filter_eq_self.mpr fun x hx => by
    simp only [ne_eq, decide_not, Bool.not_eq_true', decide_eq_false_iff_not]
    rintro rfl
    exact hv hx
  rw [this, update_eq_self]

/-- A view that is no longer fillable leaves the ring in the same section. -/
lemma Inv.leave (h : s.Inv maxViews) (f : View → View)
    (hr : (f (s.views v)).ready = (s.views v).ready)
    (hf : (f (s.views v)).fillOK = false) (hview : View.Ok (f (s.views v)) (v ∈ s.live)) :
    ((s.upd v f).unready v).Inv maxViews := by
  have heq : (s.upd v f).unready v =
      { s with
        views := update s.views v
          { f (s.views v) with ready := if v ∈ s.ring then false else (s.views v).ready }
        ring := s.ring.filter (· ≠ v) } := by
    rw [unready_eq]
    simp [upd, hr]
  rw [heq]
  have hplace := h.place v
  unfold loc at hplace
  refine h.move v rfl rfl h.room (fun x hx => ?_) ?_
    { hview with
      fill := fun hfill => absurd (hf.symm.trans hfill) nofun
      woken := fun _ hfill => absurd (hf.symm.trans hfill) nofun } ?_ ?_
    { h.slots with }
  · simp [loc, count_filter, hx]
  · have hcount : (s.ring.filter (· ≠ v)).count v = 0 := by
      refine count_eq_zero.mpr fun hm => ?_
      simp at hm
    unfold loc
    dsimp only
    rw [hcount]
    by_cases hm : v ∈ s.ring
    · have := count_pos_iff.mpr hm
      rw [if_pos hm]
      have hle : (if (s.views v).ready then 1 else 0) ≤ 1 := by split <;> omega
      simp only [Bool.false_eq_true, if_false]
      omega
    · have := count_eq_zero.mpr hm
      rw [if_neg hm]
      omega
  · intro x hx
    exact .inl (mem_of_mem_filter hx)
  · intro hm
    simp at hm

variable {t : State}

/-- A view whose one entry was taken away is pushed, or its flag is cleared. -/
lemma Inv.settle (h : s.Inv maxViews) (hviews : t.views = s.views)
    (hlive : t.live = s.live) (hring : t.ring = s.ring) (hover : t.overflow = s.overflow)
    (hother : ∀ x, x ≠ v → t.loc x = s.loc x) (hloc : t.loc v = 0)
    (hr : (s.views v).ready = true) (hslots : t.Slots) :
    (t.pushOrClear maxViews v).Inv maxViews := by
  have hw := h.view v
  unfold pushOrClear
  split
  next hc =>
    rw [hviews] at hc
    simp only [Bool.and_eq_true] at hc
    have hused := h.fill_used hc.2
    have hloc' := hloc
    unfold loc at hloc'
    have hv : v ∉ s.ring := fun hm => by
      have := count_pos_iff.mpr hm
      rw [← hring] at this
      omega
    have hlt := h.ring_lt hv hused.1 hused.2
    have hpush : t.pushReady maxViews v = { t with ring := t.ring ++ [v] } := by
      rw [pushReady, if_neg (by rw [hring]; omega)]
    rw [hpush]
    refine h.move v (w := s.views v) ?_ hlive (hover.trans h.room) (fun x hx => ?_) ?_ hw ?_
      (fun _ => hused) { hslots with }
    · rw [update_eq_self]
      exact hviews
    · rw [← hother x hx]
      simp [loc, count_append, Ne.symm hx]
    · rw [hr]
      unfold loc
      simp only [count_append, count_cons_self, count_nil, if_true]
      omega
    intro x hx
    rcases mem_append.mp hx with hx | hx
    · exact .inl (hring ▸ hx)
    · exact .inr (mem_singleton.mp hx)
  rename_i hc
  rw [hviews] at hc
  have hnf : (s.views v).fillOK = false := by
    by_contra hf
    have hf : (s.views v).fillOK = true := by simpa using hf
    exact hc (by rw [hf, (hw.fill hf).1]; rfl)
  refine h.move v (w := { s.views v with ready := false }) ?_ hlive (hover.trans h.room)
    (fun x hx => hother x hx) hloc
    { hw with woken := fun _ hfill => absurd (hnf.symm.trans hfill) nofun }
    (fun x hx => .inl (hring ▸ hx)) (fun hm => h.ring v (hring ▸ hm))
    { hslots with }
  rw [setReady, upd, hviews]

/-- After a push a fillable view has its flag. -/
lemma pushOrClear_ready (hr : (t.views v).ready = true)
    (ht : (t.views v).fillOK = true → (t.views v).inTable = true)
    (hf : ((t.pushOrClear maxViews v).views v).fillOK = true) :
    ((t.pushOrClear maxViews v).views v).ready = true := by
  unfold pushOrClear at hf ⊢
  split
  · unfold pushReady
    split <;> exact hr
  rename_i hc
  rw [if_neg hc] at hf
  have hf : (t.views v).fillOK = true := by simpa [setReady, upd] using hf
  exact absurd (by rw [hf, ht hf]; rfl) hc

/-! ### The writer -/

/-- A view in the scratch has one entry there and its flag set. -/
lemma Inv.scratch_ready (h : s.Inv maxViews) (hv : v ∈ s.scratch) :
    (s.views v).ready = true ∧ s.ring.count v = 0 ∧ s.scratch.count v = 1 ∧
      s.wakers.count v = 0 ∧ s.pc.pushes v = 0 := by
  have hplace := h.place v
  have hpos := count_pos_iff.mpr hv
  unfold loc at hplace
  cases hr : (s.views v).ready with
  | false =>
    rw [hr] at hplace
    simp only [Bool.false_eq_true, if_false] at hplace
    omega
  | true =>
    rw [hr] at hplace
    simp only [if_true] at hplace
    exact ⟨rfl, by omega, by omega, by omega, by omega⟩

lemma Inv.scratch_nodup (h : s.Inv maxViews) : s.scratch.Nodup := by
  refine nodup_iff_count_le_one.mpr fun v => ?_
  by_cases hv : v ∈ s.scratch
  · exact Nat.le_of_eq (h.scratch_ready hv).2.2.1
  · rw [count_eq_zero.mpr hv]
    omega

lemma Inv.notMem_erase (h : s.Inv maxViews) (v : Nat) : v ∉ s.scratch.erase v := fun hm =>
  absurd hm (h.scratch_nodup.not_mem_erase)

/-- The slot of a view is emptied: its flag is the only thing left of it. -/
lemma Inv.loc_erase (h : s.Inv maxViews) (hv : v ∈ s.scratch) (pc : Pc) (hpc : pc.pushes v = 0) :
    ({ s with scratch := s.scratch.erase v, pc := pc } : State).loc v = 0 := by
  obtain ⟨-, h1, h2, h3, -⟩ := h.scratch_ready hv
  unfold loc
  rw [count_erase_self, h1, h2, h3, hpc]

lemma loc_erase_ne {x : Nat} (hx : x ≠ v) {pc : Pc} (hpc : pc.pushes x = s.pc.pushes x) :
    ({ s with scratch := s.scratch.erase v, pc := pc } : State).loc x = s.loc x := by
  unfold loc
  rw [count_erase_of_ne hx, hpc]

lemma Inv.returnOne (h : s.Inv maxViews) (hpc : s.pc = .control ∨ s.pc = .drr)
    (hv : v ∈ s.scratch) : (s.returnOne maxViews v).Inv maxViews ∧
      (s.returnOne maxViews v).pc = s.pc ∧
      (s.returnOne maxViews v).scratch = s.scratch.erase v := by
  have hr := (h.scratch_ready hv).1
  have hp := (h.scratch_ready hv).2.2.2.2
  unfold State.returnOne
  rw [if_pos hr]
  refine ⟨h.settle rfl rfl rfl rfl (fun x hx => loc_erase_ne hx rfl) (h.loc_erase hv _ hp) hr
    ⟨?_, ?_, ?_⟩, ?_, ?_⟩
  · rintro x (hx | hx) <;> rcases hpc with hpc | hpc <;> rw [hpc] at hx <;> cases hx
  · rintro x (hx | hx | hx) <;> rcases hpc with hpc | hpc <;> rw [hpc] at hx <;> cases hx
  · intro hx
    rcases hpc with hpc | hpc <;> rw [hpc] at hx <;> cases hx
  · unfold pushOrClear pushReady
    split
    · split <;> rfl
    · rfl
  unfold pushOrClear pushReady
  split
  · split <;> rfl
  · rfl

lemma Inv.returnLoop {vs : List Nat} (h : s.Inv maxViews) (hpc : s.pc = .control ∨ s.pc = .drr)
    (hvs : s.scratch = vs) : (State.returnLoop maxViews vs s).Inv maxViews ∧
      (State.returnLoop maxViews vs s).pc = s.pc ∧ (State.returnLoop maxViews vs s).scratch = [] := by
  induction vs generalizing s with
  | nil => exact ⟨h, rfl, hvs⟩
  | cons v vs ih =>
    obtain ⟨h1, h2, h3⟩ := h.returnOne hpc (v := v) (by rw [hvs]; exact mem_cons_self ..)
    rw [hvs, erase_cons_head] at h3
    obtain ⟨i1, i2, i3⟩ := ih h1 (by rw [h2]; exact hpc) h3
    exact ⟨i1, i2.trans h2, i3⟩

/-- **What a step must respect.** The second call of a turn finds the flag clear: no Wake readied
the view during the first call. A view that is dropped is still not fillable: no go frame came
since the writer looked. -/
def Orderly (s : State) : Ev → Prop
  | .callAgain => ∀ v, s.pc = .turn v → (s.views v).ready = false
  | .drop => ∀ v, s.pc = .dropping v → (s.views v).fillOK = false
  | _ => True

/-- The writer moves on without touching a view. -/
lemma Inv.setPc (h : s.Inv maxViews) (pc : Pc) (hpush : ∀ v, pc.pushes v = s.pc.pushes v)
    (hslots : ({ s with pc := pc } : State).Slots) : ({ s with pc := pc } : State).Inv maxViews where
  place v := by
    rw [← h.place v]
    unfold loc
    rw [← hpush v]
  view := h.view
  ring := h.ring
  nodup := h.nodup
  cap := h.cap
  slots := hslots
  room := h.room

lemma Slots.drr (hpc : t.pc = .drr) : t.Slots :=
  ⟨fun v h => by simp [hpc] at h, fun v h => by simp [hpc] at h, fun h => by simp [hpc] at h⟩

lemma Inv.step (h : s.Inv maxViews) (ev : Ev) (ho : s.Orderly ev) :
    (s.step maxViews ev).Inv maxViews := by
  cases ev with
  | add v =>
    rw [State.step]
    split
    · exact h
    rename_i hc
    simp only [Bool.or_eq_true, decide_eq_true_eq, not_or, Bool.not_eq_true] at hc
    have hw := h.view v
    have hnl := hw.unused hc.1
    have hring : v ∉ s.ring := fun hm => by
      rw [(h.ring v hm).1] at hc
      exact absurd hc.1 nofun
    refine ⟨fun x => ?_, fun x => ?_, fun x hx => ?_, nodup_cons.mpr ⟨hnl, h.nodup⟩, ?_,
      { h.slots with }, h.room⟩
    · change s.loc x = _
      rw [h.place x]
      by_cases hx : x = v
      · subst hx
        simp [upd]
      · simp only [upd, update_of_ne hx]
    · by_cases hx : x = v
      · subst hx
        simp only [upd, update_self]
        refine ⟨fun hf => ⟨rfl, (hw.fill hf).2⟩, fun _ => rfl, fun _ _ => mem_cons_self ..,
          hw.fin, nofun, fun _ _ => rfl, hw.woken⟩
      have hwx := h.view x
      simp only [upd, update_of_ne hx]
      exact { hwx with
        counted := fun hu hf => mem_cons_of_mem _ (hwx.counted hu hf)
        unused := fun hu hm => (mem_cons.mp hm).elim hx (hwx.unused hu) }
    · have hx' : x ∈ s.ring := hx
      have hxv : x ≠ v := fun he => hring (he ▸ hx')
      simpa [upd, hxv] using h.ring x hx'
    · simp only [length_cons]
      omega
  | start v =>
    rw [State.step]
    refine guard h fun hc => ?_
    simp only [Bool.and_eq_true, Bool.not_eq_true'] at hc
    have hw := h.view v
    have hfin : (s.views v).finished = false := by
      by_contra hf
      exact absurd ((hw.fin (by simpa using hf)).symm.trans hc.2) nofun
    have hused := hw.table hc.1.1
    exact h.refill _ rfl rfl
      { hw with fill := fun _ => ⟨hc.1.1, hc.2⟩, woken := fun _ _ => rfl }
      ⟨hused, hfin⟩ ⟨hused, hfin⟩
  | hold v =>
    rw [State.step]
    refine guard h fun hf => ?_
    have hw := h.view v
    exact h.flags _ rfl { hw with
      fill := nofun, held := fun _ _ => (hw.fill hf).1, woken := nofun } (h.ring v)
  | go v =>
    rw [State.step]
    refine guard h fun hc => ?_
    simp only [Bool.and_eq_true, Bool.not_eq_true'] at hc
    have hw := h.view v
    have htable := hw.held hc.1 hc.2
    have hfin : (s.views v).finished = false := by
      by_contra hf
      exact absurd ((hw.fin (by simpa using hf)).symm.trans hc.2) nofun
    exact h.refill _ rfl rfl
      { hw with fill := fun _ => ⟨htable, hc.2⟩, held := nofun, woken := fun _ _ => rfl }
      ⟨hw.table htable, hfin⟩ ⟨hw.table htable, hfin⟩
  | drain v =>
    rw [State.step]
    split
    · have hw := h.view v
      exact h.flags _ rfl ⟨nofun, hw.table, hw.counted, fun _ => rfl, hw.unused, nofun, nofun⟩
        (h.ring v)
    · exact h
  | finish v =>
    rw [State.step]
    refine guard h fun hu => ?_
    have hw := h.view v
    exact h.leave _ rfl rfl ⟨nofun, hw.table, nofun, fun _ => rfl, hw.unused, nofun, nofun⟩
  | remove v =>
    rw [State.step]
    refine guard h fun hf => ?_
    have hw := h.view v
    have hnf : (s.views v).fillOK = false := by
      by_contra hfill
      have := (hw.fill (by simpa using hfill)).2
      rw [hw.fin hf] at this
      cases this
    exact h.leave _ rfl hnf { hw with
      fill := fun hfill => absurd (hnf.symm.trans hfill) nofun, table := nofun
      held := fun _ hc => absurd ((hw.fin hf).symm.trans hc) nofun }
  | done v =>
    rw [State.step]
    refine guard h fun hf => ?_
    refine ⟨h.place, fun x => ?_, h.ring, h.nodup.erase v, ?_,
      { h.slots with }, h.room⟩
    · have hw := h.view x
      refine { hw with
        counted := fun hu hfin => ?_
        unused := fun hu hm => hw.unused hu (mem_of_mem_erase hm) }
      have hxv : x ≠ v := fun he => by
        rw [he] at hfin
        exact absurd (hf.symm.trans hfin) nofun
      exact (mem_erase_of_ne hxv).mpr (hw.counted hu hfin)
    · exact Nat.le_trans length_erase_le h.cap
  | ready v => exact h.readyLocked v
  | wakeLoad v =>
    rw [State.step]
    split
    · exact { h with slots := { h.slots with } }
    next hf =>
      have hw := h.view v
      exact h.flags _ rfl { hw with woken := fun _ hfill => absurd hfill hf } (h.ring v)
  | wakeSwap v =>
    rw [State.step]
    refine guard h fun _ => ?_
    have hl : ({ s with loaders := s.loaders.erase v } : State).Inv maxViews :=
      { h with slots := { h.slots with } }
    have hw := h.view v
    dsimp only
    split
    next hr =>
      exact hl.flags _ rfl { hw with woken := fun _ _ => hr }
        (h.ring v)
    rename_i hr
    have hloc := h.notMem_of_notReady (by simpa using hr)
    refine hl.move v rfl rfl h.room (fun x hx => ?_) ?_
      { hw with woken := fun _ _ => rfl } (fun x hx => .inl hx)
      (h.ring v) { h.slots with }
    · simp [loc, setReady, upd, Ne.symm hx]
    · unfold loc at hloc ⊢
      simp only [setReady, upd, count_cons_self, if_true]
      omega
  | wakePush v =>
    rw [State.step]
    refine guard h fun hm => ?_
    have hplace := h.place v
    have hpos := count_pos_iff.mpr hm
    have hr : (s.views v).ready = true := by
      by_contra hr
      have := h.notMem_of_notReady (v := v) (by simpa using hr)
      unfold loc at this
      omega
    rw [hr] at hplace
    unfold loc at hplace
    simp only [if_true] at hplace
    have hset := h.settle (t := { s with wakers := s.wakers.erase v }) rfl rfl rfl rfl
      (fun x hx => by unfold loc; dsimp only; rw [count_erase_of_ne hx])
      (by unfold loc; dsimp only; rw [count_erase_self]; omega) hr
      { h.slots with }
    have hw := hset.view v
    exact hset.flags _ rfl ⟨hw.fill, hw.table, hw.counted, hw.fin, hw.unused, hw.held, fun _ hfill =>
      pushOrClear_ready (t := { s with wakers := s.wakers.erase v }) hr
        (fun hf => ((h.view v).fill hf).1) hfill⟩ (hset.ring v)
  | take =>
    rw [State.step]
    refine guard h fun hp => ?_
    have hs := h.slots.idle hp
    refine ⟨fun x => ?_, h.view, nofun, h.nodup, h.cap,
      ⟨fun x hx => by simp at hx, fun x hx => by simp at hx, nofun⟩,
      h.room⟩
    have := h.place x
    unfold loc at this ⊢
    rw [hs, hp] at this
    simpa [Pc.pushes] using this
  | controlCall v =>
    rw [State.step]
    split
    · have hw := h.view v
      exact h.flags _ rfl { hw with woken := nofun } (h.ring v)
    · exact h
  | drr =>
    rw [State.step]
    exact guard h fun hp => h.setPc _ (fun v => by rw [hp]; rfl) (.drr rfl)
  | look v =>
    rw [State.step]
    refine guard h fun hc => ?_
    refine h.setPc _ (fun x => ?_) ⟨fun x hx => ?_, fun x hx => ?_, fun hx => ?_⟩
    · rw [hc.1]
      split <;> rfl
    · have : x = v := by
        rcases hx with hx | hx <;> dsimp only at hx <;> split at hx <;> simp_all
      rw [this]
      exact hc.2
    · rcases hx with hx | hx | hx <;> dsimp only at hx <;> split at hx <;> cases hx
    · dsimp only at hx
      split at hx <;> cases hx
  | drop =>
    rw [State.step]
    split
    next v hp =>
      have hv := h.slots.waiting v (.inr hp)
      have hnf := ho v hp
      have hw := h.view v
      refine h.move v rfl rfl h.room (fun x hx => ?_) ?_
        ⟨hw.fill, hw.table, hw.counted, hw.fin, hw.unused, hw.held,
          fun _ hfill => absurd (hnf.symm.trans hfill) nofun⟩ (fun x hx => .inl hx) (h.ring v)
        (.drr rfl)
      · exact loc_erase_ne hx (by rw [hp])
      · exact h.loc_erase hv _ rfl
    · exact h
  | call =>
    rw [State.step]
    split
    next v hp =>
      have hv := h.slots.waiting v (.inl hp)
      have hw := h.view v
      refine h.move v (w := { s.views v with ready := false, woken := false }) ?_ rfl h.room
        (fun x hx => ?_) ?_ { hw with woken := nofun }
        (fun x hx => .inl hx) (h.ring v) ⟨?_, ?_, nofun⟩
      · simp [fillBegins, setReady, upd]
      · exact loc_erase_ne hx (by rw [hp])
      · exact h.loc_erase hv _ rfl
      · rintro x (hx | hx) <;> cases hx
      · rintro x (hx | hx | hx) <;> cases hx
        exact h.notMem_erase v
    · exact h
  | callAgain =>
    rw [State.step]
    split
    next v hp =>
      refine guard h fun _ => ?_
      have hr := ho v hp
      have hw := h.view v
      refine h.move v (w := { s.views v with ready := false, resume := false, woken := false }) ?_
        rfl h.room (fun x hx => rfl) (h.notMem_of_notReady hr)
        { hw with woken := nofun }
        (fun x hx => .inl hx) (h.ring v) { h.slots with }
      simp [fillBegins, upd]
    · exact h
  | endCall o =>
    rw [State.step]
    split
    next v hp =>
      have hv : v ∉ s.scratch := h.slots.served v (.inl hp)
      cases o with
      | stays =>
        refine h.setPc _ (fun x => by rw [hp]; rfl)
          ⟨fun x hx => by simp at hx, ?_, nofun⟩
        rintro x (hx | hx | hx) <;> cases hx
        exact hv
      | idle => exact h.setPc _ (fun x => by rw [hp]; rfl) (.drr rfl)
      | payload cut =>
        have hw := h.view v
        replace h := h.flags (v := v) (fun w => { w with resume := cut }) rfl
          { hw with } (h.ring v)
        have hp : (s.upd v fun w => { w with resume := cut }).pc = .turn v := hp
        dsimp only
        generalize s.upd v (fun w => { w with resume := cut }) = s at *
        split
        · exact h.setPc _ (fun x => by rw [hp]; rfl) (.drr rfl)
        rename_i hr
        have hloc := h.notMem_of_notReady (by simpa using hr)
        have hw := h.view v
        refine h.move v rfl rfl h.room (fun x hx => ?_) ?_
          { hw with woken := fun _ _ => rfl }
          (fun x hx => .inl hx) (h.ring v) (.drr rfl)
        · simp [loc, setReady, upd, Ne.symm hx, hp, Pc.pushes]
        unfold loc at hloc ⊢
        rw [hp] at hloc
        simp only [setReady, upd, count_cons_self, Pc.pushes, if_true] at hloc ⊢
        omega
    · exact h
  | staySwap =>
    rw [State.step]
    split
    next v hp =>
      have hv : v ∉ s.scratch := h.slots.served v (.inr (.inl hp))
      split
      · exact h.setPc _ (fun x => by rw [hp]; rfl) (.drr rfl)
      rename_i hr
      have hloc := h.notMem_of_notReady (by simpa using hr)
      have hw := h.view v
      refine h.move v rfl rfl h.room (fun x hx => ?_) ?_
        { hw with woken := fun _ _ => rfl }
        (fun x hx => .inl hx) (h.ring v) ⟨fun x hx => by simp at hx, ?_, nofun⟩
      · simp [loc, setReady, upd, Ne.symm hx, hp, Pc.pushes]
      · unfold loc at hloc ⊢
        simp only [setReady, upd, Pc.pushes, if_true]
        omega
      · rintro x (hx | hx | hx) <;> cases hx
        exact hv
    · exact h
  | stayPush =>
    rw [State.step]
    split
    next v hp =>
      have hplace := h.place v
      unfold loc at hplace
      rw [hp] at hplace
      simp only [Pc.pushes, if_true] at hplace
      have hr : (s.views v).ready = true := by
        by_contra hr
        rw [if_neg hr] at hplace
        omega
      rw [hr] at hplace
      simp only [if_true] at hplace
      refine h.settle (t := { s with pc := .drr }) rfl rfl rfl rfl (fun x hx => ?_) ?_ hr (.drr rfl)
      · simp [loc, hp, Ne.symm hx, Pc.pushes]
      · unfold loc
        simp only [Pc.pushes]
        omega
    · exact h
  | giveBack =>
    have hgive (hpc : s.pc = .control ∨ s.pc = .drr) :
        ({ State.returnLoop maxViews s.scratch s with pc := .idle } : State).Inv maxViews := by
      obtain ⟨h1, h2, h3⟩ := h.returnLoop hpc rfl
      refine h1.setPc _ (fun x => ?_) ⟨fun x hx => by simp at hx,
        fun x hx => by simp at hx, fun _ => h3⟩
      rcases hpc with hpc | hpc <;> rw [h2, hpc] <;> rfl
    rw [State.step]
    split
    next hp => exact hgive (.inl hp)
    next hp => exact hgive (.inr hp)
    · exact h

lemma start_inv (fillOK : Bool) : (start fillOK).Inv maxViews where
  place v := by
    by_cases hv : v = 1
    · subst hv
      cases fillOK <;> rfl
    · cases fillOK <;> simp [loc, start, hv, Ne.symm hv, View.fresh, Pc.pushes]
  view v := by
    by_cases hv : v = 1
    · subst hv
      cases fillOK <;> constructor <;> simp [start]
    · constructor <;> simp [start, hv, View.fresh]
  ring v hv := by
    cases fillOK with
    | false => cases hv
    | true =>
      cases mem_singleton.mp hv
      exact ⟨rfl, rfl⟩
  nodup := nodup_singleton 1
  cap := Nat.le_max_right ..
  slots := ⟨fun v h => by simp [start] at h, fun v h => by simp [start] at h, fun _ => rfl⟩
  room := rfl

/-- **The ready set, in every orderly run.** A view has one entry while its flag is set (in the
ring, in the scratch, or in the hands of the goroutine that set the flag and pushes next) and none
while it is not, no push finds the ring full, and a fillable view of the table that was woken since
its last Fill call began has its flag set. -/
theorem ready_set (maxViews : Nat) (fillOK : Bool) (evs : List Ev)
    (hok : Along (State.step maxViews) Orderly (start fillOK) evs) :
    let s := runFrom (State.step maxViews) (start fillOK) evs
    (∀ v, s.loc v = if (s.views v).ready then 1 else 0) ∧ s.overflow = false ∧
      ∀ v, (s.views v).inTable = true → (s.views v).fillOK = true → (s.views v).woken = true →
        (s.views v).ready = true := by
  have h : (runFrom (State.step maxViews) (start fillOK) evs).Inv maxViews :=
    runFrom_along (Inv maxViews) (start_inv fillOK) (fun _ ev ho h => h.step ev ho) hok
  exact ⟨h.place, h.room, fun v _ hf hw => (h.view v).woken hw hf⟩

/-- A held view is dropped, and a Wake comes while another view's turn runs. -/
theorem ready_set_round :
    let evs : List Ev := [.add 2, .start 2, .take, .drr, .hold 2, .look 2, .drop, .look 1, .call,
      .wakeLoad 1, .wakeSwap 1, .wakePush 1, .endCall .idle, .giveBack]
    let s := runFrom (State.step 2) (start true) evs
    Along (State.step 2) Orderly (start true) evs ∧
      s.ring = [1] ∧ ∀ v, s.loc v = if (s.views v).ready then 1 else 0 := by
  intro evs s
  have hok : Along (State.step 2) Orderly (start true) evs := by
    refine ⟨trivial, trivial, trivial, trivial, trivial, trivial, ?_, trivial, trivial, trivial,
      trivial, trivial, trivial, trivial, trivial⟩
    rintro v ⟨⟩
    rfl
  exact ⟨hok, rfl, (ready_set 2 true evs hok).1⟩

/-- **A view twice in the ring.** The rest of a cut turn places nothing, and a Wake of the view
comes during that call: the ring holds the view when the turn's second call clears its flag, and the
next Wake pushes it again. -/
theorem ring_holds_twice :
    (runFrom (State.step 2) (start true) [.take, .drr, .look 1, .call, .endCall (.payload true),
      .giveBack, .take, .drr, .look 1, .call, .wakeLoad 1, .wakeSwap 1, .wakePush 1, .callAgain,
      .wakeLoad 1, .wakeSwap 1, .wakePush 1]).ring = [1, 1] := rfl

/-- **A wake-up lost.** A view is held after its response and woken before; the writer looks at it
in the next round, the go frame makes it fillable and finds its flag set, and the writer clears the
flag. -/
theorem go_frame_lost :
    let s := runFrom (State.step 2) (start true) [.add 2, .start 2, .take, .drr, .look 2, .call,
      .wakeLoad 2, .wakeSwap 2, .wakePush 2, .hold 2, .endCall .stays, .staySwap, .giveBack,
      .take, .drr, .look 2, .go 2, .drop]
    (s.views 2).inTable = true ∧ (s.views 2).fillOK = true ∧ (s.views 2).woken = true ∧
      (s.views 2).ready = false ∧ s.loc 2 = 0 := ⟨rfl, rfl, rfl, rfl, rfl⟩

end State

end Rendr.Mux.Ready
