import Rendr.Carrier.Down

/-!
# A death notice precedes what follows from the death

Once a trunk's death record is published, every other established trunk of its pair either still
has the DOWN pending, has reserved it, or lost it to an overflow (`Trunk.Noted`), and the writer
reserves no reliable session frame ahead of a pending DOWN: a batch that refuses the DOWN refuses
every reliable session frame behind it (`Batch.addReliable_of_refused`).

* `Trunk.Ok`, `Trunk.Later` — what every operation of a trunk keeps, and what it never takes back.
* `Dying.Ok` — what a death in progress knows: its targets, the trunks already served, and why a
  received DOWN chose its victim.
* `notice_precedes` — the order of the notice, and the limits of a DOWN, over every run whose
  steps are `Orderly`.
* `first_frame_overtakes` — a stream trunk places a JOIN ahead of a pending DOWN.
-/

open Rendr.Wire Rendr.Octets

namespace Rendr.Mux.Batch

variable {b : Batch} {keeps : Bool} {len : Nat}

/-- A refused control frame leaves the batch alone; a reserved one keeps its kind. -/
lemma addControl_cases (b : Batch) (len : Nat) : b.addControl len = (b, false) ∨
    ∃ b', b.addControl len = (b', true) ∧ b'.dgram = b.dgram := by
  unfold addControl
  split
  · exact .inl rfl
  · exact .inr ⟨_, rfl, rfl⟩

lemma addControl_of_refused {l l' : Nat} (h : (b.addControl l).2 = false) (hl : l ≤ l') :
    (b.addControl l').2 = false := by
  unfold addControl at h ⊢
  split at h
  next hfull => rw [if_pos (hfull.imp_right fun h => by omega)]
  · simp at h

/-- On a datagram batch with REL room left, the reservation is that of the wrapped frame. -/
lemma addReliable_room (hd : b.dgram = true)
    (hr : ¬b.relRoom - (if keeps then b.relKeep else 0) ≤ b.nrel) :
    (b.addReliable keeps len).2 = (b.addControl (relHeadLen + len)).2 := by
  unfold addReliable
  rw [if_pos hd, if_neg hr]
  rcases addControl_cases b (relHeadLen + len) with h | ⟨b', h, -⟩ <;> rw [h]

/-- A refused reliable frame leaves the batch alone; a reserved one keeps its kind. -/
lemma addReliable_cases (b : Batch) (keeps : Bool) (len : Nat) : b.addReliable keeps len = (b, false) ∨
    ∃ b', b.addReliable keeps len = (b', true) ∧ b'.dgram = b.dgram := by
  by_cases hd : b.dgram = true
  · by_cases hr : b.relRoom - (if keeps then b.relKeep else 0) ≤ b.nrel
    · exact .inl (by rw [addReliable, if_pos hd, if_pos hr])
    rw [addReliable, if_pos hd, if_neg hr]
    rcases addControl_cases b (relHeadLen + len) with h | ⟨b', h, hb⟩ <;> rw [h]
    · exact .inl rfl
    · exact .inr ⟨_, rfl, hb⟩
  · rw [addReliable, if_neg hd]
    exact addControl_cases b len

lemma addControl_dgram : (b.addControl len).1.dgram = b.dgram := by
  rcases addControl_cases b len with h | ⟨b', h, hb⟩ <;> rw [h]
  exact hb

lemma addReliable_dgram : (b.addReliable keeps len).1.dgram = b.dgram := by
  rcases addReliable_cases b keeps len with h | ⟨b', h, hb⟩ <;> rw [h]
  exact hb

lemma addReliable_refused (h : (b.addReliable keeps len).2 = false) :
    (b.addReliable keeps len).1 = b := by
  rcases addReliable_cases b keeps len with h' | ⟨b', h', -⟩
  · rw [h']
  · rw [h'] at h
    simp at h

/-- **The fence.** A batch that refuses a frame which may use all the REL room refuses every
reliable frame that is no shorter. -/
lemma addReliable_of_refused (keeps : Bool) {l l' : Nat}
    (h : (b.addReliable false l).2 = false) (hl : l ≤ l') :
    (b.addReliable keeps l').2 = false := by
  by_cases hd : b.dgram = true
  · by_cases hr : b.relRoom - (if keeps then b.relKeep else 0) ≤ b.nrel
    · simp [addReliable, hd, hr]
    rw [addReliable_room hd hr]
    have hr' : ¬b.relRoom - (if false then b.relKeep else 0) ≤ b.nrel := by
      simp only [Bool.false_eq_true, if_false]
      omega
    rw [addReliable_room hd hr'] at h
    exact addControl_of_refused h (by omega)
  · simp only [addReliable, hd] at h ⊢
    exact addControl_of_refused h hl

end Rendr.Mux.Batch

namespace Rendr.Carrier.Down

open Rendr.Mux (Batch)

lemma Kind.downLen_le_fixedLen (k : Kind) : downLen ≤ k.fixedLen := by
  cases k <;> decide

variable {id : UInt32}

namespace Trunk

variable {i : Info} {t : Trunk}

/-- The DOWN of `id` is pending, reserved, or was dropped by an overflow. -/
def Noted (t : Trunk) (id : UInt32) : Prop :=
  id ∈ t.downs ∨ id ∈ t.dropped ∨ ∃ f ∈ t.frames, f.what = .down id

/-- **What every operation of a trunk keeps.** -/
structure Ok (i : Info) (t : Trunk) : Prop where
  nodup : t.downs.Nodup
  /-- No DOWN names the trunk itself, pending or reserved. -/
  self : i.id ∉ t.downs
  sent : ∀ f ∈ t.frames, f.what ≠ .down i.id
  /-- A round that began without the hold has the fence. -/
  fenced : t.pc = .begun ∨ t.pc = .filling → t.held = false ∧ t.fence = i.mux
  heldPc : t.pc = .heldFilling → t.held = true
  dgram : t.pc ≠ .idle → t.batch.dgram = i.dgram
  /-- The RELs are stamped in the order of their reservation. -/
  stamped : ∀ f ∈ t.frames, ∀ c, f.cseq = some c → c < t.cseq
  wrapped : i.dgram = true → ∀ f ∈ t.frames, ∀ id, f.what = .down id → f.cseq.isSome = true
  close : t.closeSent = true → t.retiring = true

/-- **What no operation of a trunk takes back.** -/
structure Later (t t' : Trunk) : Prop where
  death : t.death.isSome = true → t'.death.isSome = true
  closeSent : t.closeSent = true → t'.closeSent = true
  held : t.held = false → t'.held = false
  noted : ∀ id, t.Noted id → t'.Noted id

/-- No retirement began. -/
def Calm (t t' : Trunk) : Prop := t.retiringForDown = false → t'.retiringForDown = false

lemma Later.rfl : t.Later t := ⟨id, id, id, fun _ => id⟩

variable {t₁ t₂ t₃ : Trunk}

lemma Later.trans (h₁ : t₁.Later t₂) (h₂ : t₂.Later t₃) : t₁.Later t₃ :=
  ⟨h₂.death ∘ h₁.death, h₂.closeSent ∘ h₁.closeSent, h₂.held ∘ h₁.held,
    fun id => h₂.noted id ∘ h₁.noted id⟩

/-! ### Reservations -/

/-- What a reservation leaves alone. -/
structure Same (t t' : Trunk) : Prop where
  death : t'.death = t.death
  closeSent : t'.closeSent = t.closeSent
  peerClosed : t'.peerClosed = t.peerClosed
  retiring : t'.retiring = t.retiring
  held : t'.held = t.held
  dropped : t'.dropped = t.dropped
  pc : t'.pc = t.pc
  fence : t'.fence = t.fence
  dgram : t'.batch.dgram = t.batch.dgram

lemma Same.trans (h₁ : t₁.Same t₂) (h₂ : t₂.Same t₃) : t₁.Same t₃ := by
  constructor
  all_goals first
    | exact h₂.death.trans h₁.death
    | exact h₂.closeSent.trans h₁.closeSent
    | exact h₂.peerClosed.trans h₁.peerClosed
    | exact h₂.retiring.trans h₁.retiring
    | exact h₂.held.trans h₁.held
    | exact h₂.dropped.trans h₁.dropped
    | exact h₂.pc.trans h₁.pc
    | exact h₂.fence.trans h₁.fence
    | exact h₂.dgram.trans h₁.dgram

variable {t t' : Trunk}

lemma Same.calm (h : t.Same t') : t.Calm t' := by
  intro hq
  rw [retiringForDown, h.closeSent, h.peerClosed, h.retiring]
  exact hq

lemma Same.later (h : t.Same t') (hn : ∀ id, t.Noted id → t'.Noted id) :
    t.Later t' :=
  ⟨by rw [h.death]; exact id, by rw [h.closeSent]; exact id, by rw [h.held]; exact id, hn⟩

variable {w : What} {rel : Bool} {r : Batch × Bool}

lemma put_same (hd : r.1.dgram = t.batch.dgram) : t.Same (t.put w rel r).1 := by
  unfold put
  split <;> exact ⟨rfl, rfl, rfl, rfl, rfl, rfl, rfl, rfl, hd⟩

lemma put_downs : (t.put w rel r).1.downs = t.downs := by
  unfold put
  split <;> rfl

lemma put_ok : (t.put w rel r).2 = r.2 := by
  unfold put
  split <;> simp_all

lemma put_taken (w : What) (rel : Bool) (h : r.2 = true) : (t.put w rel r).1.frames =
    t.frames ++ [⟨w, if rel then some t.cseq else none⟩] := by
  simp [put, h]

lemma put_refused (w : What) (rel : Bool) (h : r.2 = false) : (t.put w rel r).1.frames = t.frames := by
  simp [put, h]

lemma put_batch : (t.put w rel r).1.batch = r.1 := by
  unfold put
  split <;> rfl

lemma put_noted (id : UInt32) (h : t.Noted id) : (t.put w rel r).1.Noted id := by
  rcases h with h | h | ⟨f, hf, hw⟩
  · exact .inl (by rw [put_downs]; exact h)
  · refine .inr (.inl ?_)
    unfold put
    split <;> exact h
  refine .inr (.inr ⟨f, ?_, hw⟩)
  unfold put
  split
  · exact List.mem_append_left _ hf
  · exact hf

/-- A reservation keeps the trunk in order: it names no trunk but another, and wraps a DOWN of a
datagram trunk. -/
lemma Ok.put (h : t.Ok i) (hd : r.1.dgram = t.batch.dgram) (hw : w ≠ .down i.id)
    (hrel : i.dgram = true → ∀ id, w = .down id → rel = true) : (t.put w rel r).1.Ok i := by
  unfold Trunk.put
  split
  · refine ⟨h.nodup, h.self, ?_, h.fenced, h.heldPc, fun hp => hd.trans (h.dgram hp), ?_, ?_,
      h.close⟩
    · intro f hf
      rcases List.mem_append.mp hf with hf | hf
      · exact h.sent f hf
      · rw [List.mem_singleton.mp hf]
        exact hw
    · intro f hf c hc
      rcases List.mem_append.mp hf with hf | hf
      · have := h.stamped f hf c hc
        dsimp only
        split <;> omega
      rw [List.mem_singleton.mp hf] at hc
      dsimp only at hc ⊢
      split at hc
      next hr =>
        rw [if_pos hr]
        simp only [Option.some.injEq] at hc
        omega
      · simp at hc
    intro hdg f hf id hid
    rcases List.mem_append.mp hf with hf | hf
    · exact h.wrapped hdg f hf id hid
    · rw [List.mem_singleton.mp hf] at hid ⊢
      simp [hrel hdg id hid]
  · exact { h with dgram := fun hp => hd.trans (h.dgram hp) }

lemma addReliable_same {keeps : Bool} {len : Nat} : t.Same (t.addReliable w keeps len).1 :=
  put_same Batch.addReliable_dgram

lemma Ok.addReliable (h : t.Ok i) (hp : t.pc ≠ .idle) (keeps : Bool) (len : Nat)
    (hw : w ≠ .down i.id) : (t.addReliable w keeps len).1.Ok i :=
  h.put Batch.addReliable_dgram hw fun hd _ _ => (h.dgram hp).trans hd

/-- **What the placing of the pending DOWNs does.** It reserves the oldest ones in order; a batch
that leaves some of them pending has no room for another DOWN. -/
lemma placeLoop_spec (ids : List UInt32) (t : Trunk) :
    t.Same (placeLoop ids t) ∧
    ∃ sent rest fs, ids = sent ++ rest ∧ (placeLoop ids t).downs = rest ∧
      (placeLoop ids t).frames = t.frames ++ fs ∧ fs.map Frame.what = sent.map What.down ∧
      (rest ≠ [] → ((placeLoop ids t).batch.addReliable false downLen).2 = false) := by
  induction ids generalizing t with
  | nil => exact ⟨⟨rfl, rfl, rfl, rfl, rfl, rfl, rfl, rfl, rfl⟩, [], [], [], by simp [placeLoop]⟩
  | cons id ids ih =>
    have hs : t.Same (t.addReliable (.down id) false downLen).1 := addReliable_same
    have hok : (t.addReliable (.down id) false downLen).2 =
        (t.batch.addReliable false downLen).2 := put_ok
    rw [placeLoop]
    cases h : t.addReliable (.down id) false downLen with
    | mk t' ok =>
      rw [h] at hs hok
      cases ok with
      | true =>
        have hf : t'.frames = t.frames ++
            [⟨.down id, if t.batch.dgram then some t.cseq else none⟩] := by
          have := put_taken (t := t) (.down id) t.batch.dgram hok.symm
          rw [← this]
          exact congrArg (fun r => r.1.frames) h.symm
        obtain ⟨hs', sent, rest, fs, hids, hdowns, hframes, hwhat, hroom⟩ := ih t'
        refine ⟨hs.trans hs', id :: sent, rest,
          ⟨.down id, if t.batch.dgram then some t.cseq else none⟩ :: fs,
          by rw [hids, List.cons_append], hdowns, ?_, ?_, hroom⟩
        · rw [hframes, hf, List.append_assoc, List.singleton_append]
        · rw [List.map_cons, List.map_cons, hwhat]
      | false =>
        have hb : t'.batch = t.batch := by
          rw [← Batch.addReliable_refused hok.symm]
          exact (congrArg (fun r => r.1.batch) h.symm).trans put_batch
        have hf : t'.frames = t.frames := by
          rw [← put_refused (t := t) (.down id) t.batch.dgram hok.symm]
          exact congrArg (fun r => r.1.frames) h.symm
        refine ⟨{ hs with }, [], id :: ids, [], rfl, rfl, by simp [hf], rfl, fun _ => ?_⟩
        rw [hb]
        exact hok.symm

lemma placeLoop_ok (ids : List UInt32) {t : Trunk} (h : t.Ok i) (hp : t.pc ≠ .idle)
    (hnd : ids.Nodup) (hself : i.id ∉ ids) : (placeLoop ids t).Ok i := by
  induction ids generalizing t with
  | nil => exact { h with nodup := List.nodup_nil, self := List.not_mem_nil }
  | cons id ids ih =>
    have hw : (What.down id) ≠ .down i.id := by
      rintro ⟨⟩
      exact hself (List.mem_cons_self ..)
    have hok := h.addReliable hp false downLen hw
    have hs : t.Same (t.addReliable (.down id) false downLen).1 := addReliable_same
    rw [placeLoop]
    cases hr : t.addReliable (.down id) false downLen with
    | mk t' ok =>
      rw [hr] at hok hs
      cases ok with
      | true =>
        exact ih hok (by rw [hs.pc]; exact hp) (List.nodup_cons.mp hnd).2
          fun hm => hself (List.mem_cons_of_mem _ hm)
      | false => exact { hok with nodup := hnd, self := hself }

lemma place_same : t.Same t.place := (placeLoop_spec t.downs t).1

lemma Ok.place (h : t.Ok i) (hp : t.pc ≠ .idle) : t.place.Ok i :=
  placeLoop_ok t.downs h hp h.nodup h.self

lemma place_noted (id : UInt32) (h : t.Noted id) : t.place.Noted id := by
  obtain ⟨hs, sent, rest, fs, hids, hdowns, hframes, hwhat, -⟩ := placeLoop_spec t.downs t
  rcases h with h | h | ⟨f, hf, hw⟩
  · rw [hids] at h
    rcases List.mem_append.mp h with h | h
    · have hm : What.down id ∈ fs.map Frame.what := by
        rw [hwhat]
        exact List.mem_map_of_mem h
      obtain ⟨f, hf, hw⟩ := List.mem_map.mp hm
      exact .inr (.inr ⟨f, by rw [Trunk.place, hframes]; exact List.mem_append_right _ hf, hw⟩)
    · exact .inl (by rw [Trunk.place, hdowns]; exact h)
  · exact .inr (.inl (by rw [Trunk.place, hs.dropped]; exact h))
  · exact .inr (.inr ⟨f, by rw [Trunk.place, hframes]; exact List.mem_append_left _ hf, hw⟩)

/-- The DOWNs go ahead: a round places no frame before them but those it had. -/
lemma place_frames : ∃ fs, t.place.frames = t.frames ++ fs ∧
    ∀ f ∈ fs, ∃ id, f.what = .down id := by
  obtain ⟨-, sent, rest, fs, -, -, hframes, hwhat, -⟩ := placeLoop_spec t.downs t
  refine ⟨fs, hframes, fun f hf => ?_⟩
  have hm := List.mem_map_of_mem (f := Frame.what) hf
  rw [hwhat] at hm
  obtain ⟨id, -, hid⟩ := List.mem_map.mp hm
  exact ⟨id, hid.symm⟩

/-- A batch with room for a reliable session frame behind the placed DOWNs left none pending. -/
lemma place_downs_of_room {keeps : Bool} {len : Nat} (hl : downLen ≤ len)
    (h : (t.place.batch.addReliable keeps len).2 = true) : t.place.downs = [] := by
  obtain ⟨-, sent, rest, fs, -, hdowns, -, -, hroom⟩ := placeLoop_spec t.downs t
  by_contra hne
  rw [Trunk.place, hdowns] at hne
  have hno := Batch.addReliable_of_refused keeps (hroom hne) hl
  rw [Trunk.place, hno] at h
  simp at h

/-- What a reservation behind placed DOWNs puts ahead of its frame: every DOWN noted and not
dropped, and on a datagram trunk with a lower sequence number. -/
lemma put_notice {k : Kind} {old ds fs : List Frame} {f : Frame} (h : t.Ok i)
    (hfr : t.frames = old ++ ds) (hds : ∀ d ∈ ds, ∃ id, d.what = .down id)
    (hroom : r.2 = true → t.downs = []) (hrel : i.dgram = true → rel = true) (hn : t.Noted id)
    (hf : (t.put (.session k) rel r).1.frames = fs ++ [f]) (hnew : old.length ≤ fs.length)
    (hw : f.what = .session k) :
    id ∈ t.dropped ∨ ∃ d ∈ fs, d.what = .down id ∧
      (i.dgram = true → ∃ a b, d.cseq = some a ∧ f.cseq = some b ∧ a < b) := by
  cases hr : r.2 with
  | false =>
    -- A refused frame: the last frame is old or a DOWN.
    rw [put_refused _ _ hr, hfr] at hf
    have hlen := congrArg List.length hf
    simp only [List.length_append, List.length_cons, List.length_nil] at hlen
    have hm : f ∈ ds := by
      have hlast := congrArg List.getLast? hf
      rw [List.getLast?_append_of_ne_nil _ (List.ne_nil_of_length_pos (by omega)),
        List.getLast?_concat] at hlast
      exact List.mem_of_getLast? hlast
    obtain ⟨id', hid'⟩ := hds f hm
    rw [hw] at hid'
    cases hid'
  | true =>
    rw [put_taken _ _ hr] at hf
    obtain ⟨hfs, hff⟩ := List.append_inj' hf rfl
    simp only [List.cons.injEq, and_true] at hff
    rcases hn with hn | hn | ⟨d, hd, hdw⟩
    · rw [hroom hr] at hn
      exact absurd hn List.not_mem_nil
    · exact .inl hn
    refine .inr ⟨d, hfs ▸ hd, hdw, fun hdg => ?_⟩
    obtain ⟨a, ha⟩ := Option.isSome_iff_exists.mp (h.wrapped hdg d hd id hdw)
    refine ⟨a, t.cseq, ha, ?_, h.stamped d hd a ha⟩
    rw [← hff, hrel hdg]
    rfl

/-- **The order on one trunk.** A reliable session frame that a trunk which is not held reserves
comes after every DOWN noted and not dropped. -/
lemma Ok.session_notice {k : Kind} {x : Nat} {fs : List Frame} {f : Frame} (h : t.Ok i)
    (hm : i.mux = true) (hh : t.held = false)
    (hdir : i.dgram = false → k.direct = true → t.downs = []) (hn : t.Noted id)
    (hf : (t.session k x).frames = fs ++ [f]) (hnew : t.frames.length ≤ fs.length)
    (hw : f.what = .session k) :
    id ∈ t.dropped ∨ ∃ d ∈ fs, d.what = .down id ∧
      (i.dgram = true → ∃ a b, d.cseq = some a ∧ f.cseq = some b ∧ a < b) := by
  have hpc : t.pc = .filling := by
    by_contra hpc
    have hnh : t.pc ≠ .heldFilling := fun hp => by simp [h.heldPc hp] at hh
    have hlen := congrArg List.length hf
    simp only [session, hpc, hnh, or_self, if_false, List.length_append, List.length_cons,
      List.length_nil] at hlen
    omega
  have hidle : t.pc ≠ .idle := by rw [hpc]; decide
  have hfence : t.fence = true := ((h.fenced (.inr hpc)).2).trans hm
  have hdg : t.batch.dgram = i.dgram := h.dgram hidle
  rw [session, if_pos (.inl hpc), addSession] at hf
  split at hf
  · -- Through the fence: the pending DOWNs are placed first.
    rw [addSessionRel, if_pos hfence, Trunk.addReliable] at hf
    obtain ⟨ds, hfr, hds⟩ := place_frames (t := t)
    have hrel : i.dgram = true → t.place.batch.dgram = true := fun hd => by
      rw [place_same.dgram, hdg, hd]
    rw [← place_same (t := t).dropped]
    exact put_notice (h.place hidle) hfr hds
      (place_downs_of_room (k.downLen_le_fixedLen.trans (Nat.le_add_right _ _))) hrel
      (place_noted id hn) hf hnew hw
  rename_i hno
  simp only [Bool.or_eq_true, Bool.not_eq_true', not_or, Bool.not_eq_true,
    Bool.not_eq_false] at hno
  have hd : i.dgram = false := hdg.symm.trans hno.1
  have hempty := hdir hd hno.2
  have hrel : i.dgram = true → false = true := fun hd' => by simp [hd] at hd'
  split at hf
  · exact put_notice h (List.append_nil _).symm (fun d hd => absurd hd List.not_mem_nil)
      (fun _ => hempty) hrel hn hf hnew hw
  · exact put_notice h (List.append_nil _).symm (fun d hd => absurd hd List.not_mem_nil)
      (fun _ => hempty) hrel hn hf hnew hw

/-! ### The operations of a trunk -/

/-- An operation that keeps a trunk in order, takes nothing back and begins no retirement. -/
structure Keeps (i : Info) (t t' : Trunk) : Prop where
  ok : t.Ok i → t'.Ok i
  later : t.Later t'
  calm : t.Calm t'

lemma Keeps.rfl : t.Keeps i t := ⟨id, .rfl, id⟩

lemma place_keeps (hp : t.pc ≠ .idle) : t.Keeps i t.place :=
  ⟨fun h => h.place hp, place_same.later place_noted, place_same.calm⟩

lemma put_keeps (hd : r.1.dgram = t.batch.dgram)
    (hw : ∀ id, w ≠ .down id) : t.Keeps i (t.put w rel r).1 :=
  ⟨fun h => h.put hd (hw _) fun _ id hid => absurd hid (hw id), (put_same hd).later put_noted,
    (put_same hd).calm⟩

lemma addReliable_keeps (keeps : Bool) (len : Nat)
    (hw : ∀ id, w ≠ .down id) : t.Keeps i (t.addReliable w keeps len).1 :=
  put_keeps Batch.addReliable_dgram hw

lemma Keeps.trans (h₁ : t₁.Keeps i t₂) (h₂ : t₂.Keeps i t₃) : t₁.Keeps i t₃ :=
  ⟨h₂.ok ∘ h₁.ok, h₁.later.trans h₂.later, h₂.calm ∘ h₁.calm⟩

lemma addSession_keeps (hp : t.pc ≠ .idle) (k : Kind) (x : Nat) :
    t.Keeps i (t.addSession k x).1 := by
  have hw : ∀ id, What.session k ≠ .down id := nofun
  unfold addSession addSessionRel
  split
  · split
    · exact (place_keeps hp).trans (addReliable_keeps _ _ hw)
    · exact addReliable_keeps _ _ hw
  rename_i hno
  simp only [Bool.or_eq_true, not_or, Bool.not_eq_true] at hno
  split
  · exact put_keeps Batch.addControl_dgram hw
  refine put_keeps ?_ hw
  rw [Batch.addFirst, hno.1]
  simp only [Bool.false_eq_true, if_false]
  split
  · exact hno.1
  · rfl

lemma session_keeps (k : Kind) (x : Nat) : t.Keeps i (t.session k x) := by
  exact guard .rfl fun hp => addSession_keeps (by rcases hp with hp | hp <;> rw [hp] <;> decide) k x

lemma addOther_keeps (op : Op) : t.Keeps i (t.addOther op) := by
  cases op with
  | control len => exact put_keeps Batch.addControl_dgram nofun
  | reliable len => exact addReliable_keeps _ _ nofun
  | data =>
    rw [addOther]
    exact guard (put_keeps (by rfl) nofun) fun _ => .rfl

lemma beginRound_keeps (room keep : Nat) : t.Keeps i (t.beginRound i room keep) := by
  unfold beginRound
  split
  · refine ⟨fun h => { h with
    fenced := ?_, heldPc := ?_, dgram := fun _ => rfl }, ⟨id, id, id, fun _ => id⟩, id⟩
    · cases hh : t.held <;> simp
    · cases hh : t.held <;> simp
  · exact .rfl

lemma control_keeps : t.Keeps i (t.control i) := by
  have hplace (hp : t.pc ≠ .idle) : t.Keeps i (if i.mux then t.place else t) := by
    exact guard .rfl fun _ => place_keeps hp
  have hsame : t.Same (if i.mux then t.place else t) := by
    split
    · exact place_same
    · exact ⟨rfl, rfl, rfl, rfl, rfl, rfl, rfl, rfl, rfl⟩
  unfold control
  split
  next hp =>
    have hk := hplace (by rw [hp]; decide)
    refine ⟨fun h => ?_, { hk.later with },
      hk.calm⟩
    have hok := hk.ok h
    exact { hok with
      fenced := fun _ => hok.fenced (.inl (hsame.pc.trans hp)), heldPc := nofun
      dgram := fun _ => hok.dgram (by rw [hsame.pc, hp]; decide) }
  next hp => exact hplace (by rw [hp]; decide)
  · exact .rfl

lemma release_keeps : t.Keeps i t.release := by
  refine guard .rfl fun hp => ?_
  refine ⟨fun h => { h with
    fenced := by simp, heldPc := nofun
    dgram := fun _ => h.dgram ?_ }, ⟨id, id, fun _ => rfl, fun _ => id⟩, id⟩
  rw [hp]
  decide

lemma finish_keeps (close : Bool) : t.Keeps i (t.finish close) := by
  unfold finish
  split
  · exact .rfl
  refine ⟨fun h => ⟨h.nodup, h.self, h.sent, by simp, nofun, fun hp => absurd rfl hp,
    h.stamped, h.wrapped, ?_⟩, ⟨id, fun hc => by simp [hc], id, fun _ => id⟩, fun hq => ?_⟩
  · intro hc
    simp only [Bool.or_eq_true, Bool.and_eq_true] at hc
    exact hc.elim h.close And.right
  · simp only [retiringForDown, Bool.or_eq_false_iff] at hq ⊢
    exact ⟨⟨by simp [hq], hq.1.2⟩, hq.2⟩

lemma queueDown_keeps (hid : id ≠ i.id) : t.Keeps i (t.queueDown id) := by
  unfold queueDown
  split
  · exact .rfl
  split
  · exact .rfl
  rename_i hnew
  split
  · -- The overflow: the oldest pending DOWN is dropped.
    refine ⟨fun h => { h with nodup := ?_, self := ?_ },
      ⟨fun h => h, fun h => h, fun h => h, ?_⟩, fun h => h⟩
    · refine List.nodup_append.mpr ⟨h.nodup.tail, List.nodup_singleton _, ?_⟩
      rintro a ha b hb rfl
      exact hnew (List.mem_singleton.mp hb ▸ List.mem_of_mem_tail ha)
    · intro hm
      rcases List.mem_append.mp hm with hm | hm
      · exact h.self (List.mem_of_mem_tail hm)
      · exact hid (List.mem_singleton.mp hm).symm
    rintro id' (hn | hn | hn)
    · cases hd : t.downs with
      | nil => simp [hd] at hn
      | cons a l =>
        rw [hd] at hn
        rcases List.mem_cons.mp hn with rfl | hn
        · exact .inr (.inl (by simp))
        · exact .inl (by simp [hn])
    · exact .inr (.inl (List.mem_append_left _ hn))
    · exact .inr (.inr hn)
  refine ⟨fun h => { h with nodup := ?_, self := ?_ },
    ⟨fun h => h, fun h => h, fun h => h, ?_⟩, fun h => h⟩
  · refine List.nodup_append.mpr ⟨h.nodup, List.nodup_singleton _, ?_⟩
    rintro a ha b hb rfl
    exact hnew (List.mem_singleton.mp hb ▸ ha)
  · intro hm
    rcases List.mem_append.mp hm with hm | hm
    · exact h.self hm
    · exact hid (List.mem_singleton.mp hm).symm
  rintro id' (hn | hn | hn)
  · exact .inl (List.mem_append_left _ hn)
  · exact .inr (.inl hn)
  · exact .inr (.inr hn)

/-- Nothing more has to reach a trunk about `id`. -/
def Served (t : Trunk) (id : UInt32) : Prop :=
  t.death.isSome = true ∨ t.closeSent = true ∨ t.Noted id

lemma queueDown_served (id : UInt32) : (t.queueDown id).Served id := by
  unfold queueDown
  split
  next h =>
    simp only [Bool.or_eq_true] at h
    exact h.imp_right .inl
  split
  next h => exact .inr (.inr (.inl h))
  split <;> exact .inr (.inr (.inl (List.mem_append_right _ (List.mem_singleton_self _))))

lemma Later.served (h : t.Later t') (hs : t.Served id) : t'.Served id :=
  hs.imp h.death (Or.imp h.closeSent (h.noted id))

end Trunk

/-! ### The deaths in progress -/

variable {info : Nat → Info} {s s' : Net} {g : Dying}

/-- **What a death in progress knows.** -/
structure Dying.Ok (info : Nat → Info) (s : Net) (g : Dying) : Prop where
  /-- Its targets are other trunks of the pair, under other IDs. -/
  targets : ∀ left, g.stage = .queueing left → ∀ u ∈ left,
    (info u).pair = (info g.trunk).pair ∧ (info u).id ≠ (info g.trunk).id
  /-- Every established trunk of the pair is a target or was served. -/
  served : ∀ left, g.stage = .queueing left → g.cause.sendsDown = true → g.trunk ∈ s.reg →
    ∀ u ∈ s.reg, (info u).pair = (info g.trunk).pair → u ≠ g.trunk →
      u ∈ left ∨ (s.trunks u).Served (info g.trunk).id
  /-- A received DOWN chose a trunk of the pair that is not retiring. -/
  chosen : ∀ a, g.via = some a → g.stage ≠ .won → g.stage ≠ .done →
    (info g.trunk).pair = (info a).pair ∧ (s.trunks g.trunk).retiringForDown = false

/-- A death goes on while trunks move, as long as none enters the set and a trunk chosen by a DOWN
does not begin to retire. -/
lemma Dying.Ok.mono (h : g.Ok info s) (hl : ∀ u, (s.trunks u).Later (s'.trunks u))
    (hr : ∀ u ∈ s'.reg, u ∈ s.reg)
    (hc : g.via ≠ none → g.stage ≠ .won → g.stage ≠ .done →
      (s.trunks g.trunk).Calm (s'.trunks g.trunk)) : g.Ok info s' where
  targets := h.targets
  served left hst hc ht u hu hp hne :=
    (h.served left hst hc (hr _ ht) u (hr u hu) hp hne).imp_right (hl u).served
  chosen a ha hw hd :=
    ⟨(h.chosen a ha hw hd).1, hc (by simp [ha]) hw hd (h.chosen a ha hw hd).2⟩

/-- A death that has no targets and was caused by no DOWN, or is over. -/
lemma Dying.Ok.idle (hst : ∀ left, g.stage ≠ .queueing left)
    (hv : g.via = none ∨ g.stage = .won ∨ g.stage = .done) : g.Ok info s where
  targets left h := absurd h (hst left)
  served left h := absurd h (hst left)
  chosen a ha hw hd := by
    rcases hv with hv | hv | hv
    · simp [hv] at ha
    · exact absurd hv hw
    · exact absurd hv hd

namespace Net

/-- **The invariant of the set.** -/
structure Inv (info : Nat → Info) (s : Net) : Prop where
  trunks : ∀ u, (s.trunks u).Ok (info u)
  /-- Only MUX trunks are established, one under each ID of a pair. -/
  mux : ∀ u ∈ s.reg, (info u).mux = true
  keys : ∀ u ∈ s.reg, ∀ v ∈ s.reg, key info u = key info v → u = v
  dying : ∀ g ∈ s.dying, g.Ok info s

variable {u : Nat}

lemma set_later {t : Trunk} (h : (s.trunks u).Later t) (v : Nat) :
    (s.trunks v).Later ((s.set u t).trunks v) := by
  by_cases hv : v = u
  · subst hv
    simpa [set] using h
  · simpa [set, hv] using Trunk.Later.rfl

lemma set_calm {t : Trunk} (h : (s.trunks u).Calm t) (v : Nat) :
    (s.trunks v).Calm ((s.set u t).trunks v) := by
  by_cases hv : v = u
  · subst hv
    simpa [set] using h
  · intro hq
    simpa [set, hv] using hq

section

variable (h : s.Inv info)
include h

/-- One trunk moved; `hc`: it began no retirement, or no received DOWN chose it. -/
lemma Inv.set' {t : Trunk} (hok : t.Ok (info u)) (hl : (s.trunks u).Later t)
    (hc : ∀ g ∈ s.dying, g.trunk = u → g.via ≠ none → g.stage ≠ .won → g.stage ≠ .done →
      (s.trunks u).Calm t)
    : (s.set u t).Inv info where
  trunks v := by
    by_cases hv : v = u
    · subst hv
      simpa [set] using hok
    · simpa [set, hv] using h.trunks v
  mux := h.mux
  keys := h.keys
  dying g hg := by
    refine (h.dying g hg).mono (set_later hl) (fun _ hu => hu) fun hv hw hd => ?_
    by_cases hgu : g.trunk = u
    · subst hgu
      exact set_calm (hc g hg rfl hv hw hd) _
    · intro hq
      simpa [Net.set, hgu] using hq

lemma Inv.set {t : Trunk} (hk : (s.trunks u).Keeps (info u) t) : (s.set u t).Inv info :=
  h.set' (hk.ok (h.trunks u)) hk.later fun _ _ _ _ _ _ => hk.calm

/-- A death reached another stage. -/
lemma Inv.stage (i : Nat) {g : Dying} {st : Stage} (hok : Dying.Ok info s { g with stage := st })
    : (s.stage i g st).Inv info where
  trunks := h.trunks
  mux := h.mux
  keys := h.keys
  dying g' hg' := by
    rcases List.mem_or_eq_of_mem_set hg' with hg' | rfl
    · exact { h.dying g' hg' with }
    · exact { hok with }

lemma Inv.remove (t : Nat) : (s.remove t).Inv info where
  trunks := h.trunks
  mux u hu := h.mux u (List.mem_of_mem_filter hu)
  keys u hu v hv := h.keys u (List.mem_of_mem_filter hu) v (List.mem_of_mem_filter hv)
  dying g hg := (h.dying g hg).mono (fun _ => .rfl) (fun _ hu => List.mem_of_mem_filter hu)
    fun _ _ _ => id

lemma Inv.kill {t : Nat} {c : Cause} {via : Option Nat}
    (hv : ∀ a, via = some a → (info t).pair = (info a).pair ∧
      (s.trunks t).retiringForDown = false) : (s.kill t c via).Inv info where
  trunks := h.trunks
  mux := h.mux
  keys := h.keys
  dying g hg := by
    rcases List.mem_append.mp hg with hg | hg
    · exact { h.dying g hg with }
    · rw [List.mem_singleton.mp hg]
      exact ⟨nofun, nofun, fun a ha _ _ => hv a ha⟩

end

/-- **What a step must respect.** No trunk enters a pair between the copy of a death's targets and
the publication of its record; a stream trunk reserves no first frame and no PACK while a DOWN is
pending; a trunk does not begin to retire between the choice of a received DOWN and the death it
causes. -/
def Orderly (info : Nat → Info) (s : Net) : Ev → Prop
  | .add t => ∀ g ∈ s.dying, (info g.trunk).pair = (info t).pair → g.cause.sendsDown = true →
      ∀ left, g.stage ≠ .queueing left
  | .session u k _ => (info u).dgram = false → k.direct = true → (s.trunks u).downs = []
  | .retire t | .peerClose t =>
    ∀ g ∈ s.dying, g.trunk = t → g.via ≠ none → g.stage = .won ∨ g.stage = .done
  | _ => True

lemma Inv.add (h : s.Inv info) {t : Nat} (ho : s.Orderly info (.add t)) :
    (s.add info t).Inv info := by
  refine guard h fun hm => ?_
  have hold : ∀ u ∈ t :: s.reg.filter (fun u => key info u ≠ key info t), u = t ∨
      (u ∈ s.reg ∧ key info u ≠ key info t) := fun u hu => by
    simpa using hu
  refine ⟨h.trunks, fun u hu => ?_, fun u hu v hv hk => ?_, fun g hg => ?_⟩
  · rcases hold u hu with rfl | hu
    · exact hm
    · exact h.mux u hu.1
  · rcases hold u hu with rfl | hu <;> rcases hold v hv with rfl | hv
    · rfl
    · exact absurd hk.symm hv.2
    · exact absurd hk hu.2
    · exact h.keys u hu.1 v hv.1 hk
  refine ⟨(h.dying g hg).targets, fun left hst hc ht u hu hp hne => ?_,
    (h.dying g hg).chosen⟩
  -- A death of another pair: the new trunk is none of its trunks.
  have hne' : (info g.trunk).pair ≠ (info t).pair := fun he => ho g hg he hc left hst
  have ht' : g.trunk ∈ s.reg := (hold _ ht).elim (fun he => absurd (by rw [he]) hne') And.left
  have hu' : u ∈ s.reg :=
    (hold u hu).elim (fun he => absurd (by rw [← hp, he]) hne') And.left
  exact (h.dying g hg).served left hst hc ht' u hu' hp hne

/-- The targets of a death: every other established trunk of the pair, each under another ID. -/
lemma Inv.targets (h : s.Inv info) {t u : Nat} (hu : u ∈ s.targets info t) :
    (info u).pair = (info t).pair ∧ (info u).id ≠ (info t).id := by
  unfold Net.targets at hu
  split at hu
  next ht =>
    simp only [ne_eq, Bool.decide_and, decide_not, List.mem_filter, Bool.and_eq_true,
      decide_eq_true_eq, Bool.not_eq_true', decide_eq_false_iff_not] at hu
    refine ⟨hu.2.1, fun hid => hu.2.2 ?_⟩
    exact h.keys u hu.1 t ht (by rw [key, key, hu.2.1, hid])
  · exact absurd hu List.not_mem_nil

lemma Inv.die (h : s.Inv info) (i u : Nat) : (s.die info i u).Inv info := by
  unfold Net.die
  split
  · exact h
  rename_i g hgi
  have hg : g ∈ s.dying := List.mem_of_getElem? hgi
  have hok := h.dying g hg
  split
  · -- The look at the death record.
    rename_i hst
    have hch (st : Stage) (a : Nat) (ha : g.via = some a) (_ : st ≠ .won) (_ : st ≠ .done) :=
      hok.chosen a ha (by rw [hst]; nofun) (by rw [hst]; nofun)
    split
    · exact h.stage i (.idle nofun (.inr (.inr rfl)))
    split
    · exact h.stage i ⟨nofun, nofun, fun a ha hw hd => hch _ a ha hw hd⟩
    rename_i hno
    refine h.stage i ⟨?_, ?_, fun a ha hw hd => hch _ a ha hw hd⟩
    · rintro left ⟨⟩ u hu
      exact absurd hu List.not_mem_nil
    · rintro left - hc ht
      exact absurd (by simp [h.mux _ ht, hc]) hno
  · -- The copy of the targets.
    rename_i hst
    refine h.stage i ⟨?_, ?_, fun a ha _ _ =>
      hok.chosen a ha (by rw [hst]; nofun) (by rw [hst]; nofun)⟩
    · rintro left ⟨⟩ u hu
      exact h.targets hu
    rintro left ⟨⟩ - ht u hu hp hne
    left
    dsimp only at ht hp hne
    simp [Net.targets, ht, hu, hp, hne]
  · -- The publication.
    by_cases hd : (s.trunks g.trunk).death.isSome = true
    · rw [if_pos hd]
      exact h.stage i (.idle nofun (.inr (.inr rfl)))
    rw [if_neg hd]
    have hk : (s.trunks g.trunk).Keeps (info g.trunk)
        { s.trunks g.trunk with death := some g.cause } :=
      ⟨fun ho => { ho with }, ⟨fun _ => rfl, id, id, fun _ => id⟩, id⟩
    refine (h.set hk).stage i (.idle ?_ ?_)
    · dsimp only
      split <;> nofun
    split
    · exact .inr (.inl rfl)
    · exact .inr (.inr rfl)
  · -- A target gets its DOWN.
    rename_i left hne hst
    refine guard h fun hu => ?_
    have hid := (hok.targets left hst u hu).2
    have hk := Trunk.queueDown_keeps (t := s.trunks u) (i := info u) hid.symm
    have hset := h.set hk
    have hok' : g.Ok info (s.set u ((s.trunks u).queueDown (info g.trunk).id)) :=
      hset.dying g hg
    refine hset.stage i ⟨?_, ?_, fun a ha _ _ =>
      hok'.chosen a ha (by rw [hst]; nofun) (by rw [hst]; nofun)⟩
    · rintro _ ⟨⟩ v hv
      exact hok.targets left hst v (List.mem_of_mem_erase hv)
    rintro _ ⟨⟩ hc ht v hv hp hvne
    by_cases hvu : v = u
    · subst hvu
      right
      simpa [Net.set] using Trunk.queueDown_served (t := s.trunks v) (info g.trunk).id
    · exact (hok'.served left hst hc ht v hv hp hvne).imp_left
        fun hm => (List.mem_erase_of_ne hvu).mpr hm
  · exact (h.remove _).stage i (.idle nofun (.inr (.inr rfl)))
  · exact h

lemma Inv.step (h : s.Inv info) (ev : Ev) (ho : s.Orderly info ev) :
    (s.step info ev).Inv info := by
  cases ev with
  | add t => exact h.add ho
  | added t =>
    rw [Net.step]
    exact guard h fun _ => h.remove t
  | setDeath t c => exact h.kill (by rintro _ ⟨⟩)
  | die i u => exact h.die i u
  | onDown t p =>
    rw [Net.step]
    split
    · exact h.kill (by rintro _ ⟨⟩)
    · exact h
    rename_i u hon
    refine h.kill fun a ha => ?_
    obtain rfl : t = a := by simpa using ha
    unfold Net.onDown at hon
    split at hon
    · simp at hon
    rename_i id hp
    split at hon
    · simp at hon
    split at hon
    · simp at hon
    have hf := Except.ok.inj hon
    obtain ⟨hl, hq⟩ := Option.filter_eq_some_iff.mp hf
    have hu := List.find?_some hl
    simp only [Bool.decide_and, Bool.and_eq_true, decide_eq_true_eq] at hu
    exact ⟨hu.1, by simpa using hq⟩
  | retire t =>
    refine h.set' ?_ ⟨id, id, id, fun _ => id⟩ fun g hg hgt hv hw hd =>
      absurd (ho g hg hgt hv) (by simp [hw, hd])
    have hok := h.trunks t
    exact { hok with close := fun _ => rfl }
  | peerClose t =>
    refine h.set' ?_ ⟨id, id, id, fun _ => id⟩ fun g hg hgt hv hw hd =>
      absurd (ho g hg hgt hv) (by simp [hw, hd])
    have hok := h.trunks t
    exact { hok with }
  | beginRound u room keep => exact h.set (Trunk.beginRound_keeps room keep)
  | control u => exact h.set Trunk.control_keeps
  | session u k x => exact h.set (Trunk.session_keeps k x)
  | other u op =>
    rw [Net.step]
    exact guard (h.set (Trunk.addOther_keeps op)) fun _ => h
  | release u => exact h.set Trunk.release_keeps
  | finish u close => exact h.set (Trunk.finish_keeps close)

lemma start_inv (held : Nat → Bool) : (start held).Inv info where
  trunks u := ⟨List.nodup_nil, List.not_mem_nil, nofun, by simp [start], by simp [start],
    by simp [start], nofun, nofun, by simp [start]⟩
  mux := nofun
  keys := nofun
  dying := nofun

/-! ### Runs -/

/-- No step takes anything back from a trunk. -/
lemma step_later (s : Net) (ev : Ev) (u : Nat) (h : s.Inv info) (ho : s.Orderly info ev) :
    (s.trunks u).Later ((s.step info ev).trunks u) := by
  cases ev with
  | add t =>
    rw [Net.step, Net.add]
    split <;> exact .rfl
  | added t | onDown t p =>
    rw [Net.step]
    split <;> exact .rfl
  | setDeath t c => exact .rfl
  | die i v =>
    rw [Net.step, Net.die]
    split
    · exact .rfl
    rename_i g hgi
    have hok := h.dying g (List.mem_of_getElem? hgi)
    split
    · split
      · exact .rfl
      · split <;> exact .rfl
    · exact .rfl
    · dsimp only
      by_cases hd : (s.trunks g.trunk).death.isSome = true
      · rw [if_pos hd]
        exact .rfl
      · rw [if_neg hd]
        exact set_later (t := { s.trunks g.trunk with death := some g.cause })
          ⟨fun _ => rfl, id, id, fun _ => id⟩ u
    next left hne hst =>
      split
      next hv => exact set_later (Trunk.queueDown_keeps (hok.targets left hst v hv).2.symm).later u
      · exact .rfl
    · exact .rfl
    · exact .rfl
  | retire v =>
    exact set_later (t := { s.trunks v with retiring := true }) ⟨id, id, id, fun _ => id⟩ u
  | peerClose v =>
    exact set_later (t := { s.trunks v with peerClosed := true }) ⟨id, id, id, fun _ => id⟩ u
  | beginRound v room keep =>
    exact set_later (Trunk.beginRound_keeps (i := info v) room keep).later u
  | control v => exact set_later (Trunk.control_keeps (i := info v)).later u
  | session v k x => exact set_later (Trunk.session_keeps (i := info v) k x).later u
  | other v op =>
    rw [Net.step]
    split
    · exact .rfl
    · exact set_later (Trunk.addOther_keeps (i := info v) op).later u
  | release v => exact set_later (Trunk.release_keeps (i := info v)).later u
  | finish v close => exact set_later (Trunk.finish_keeps (i := info v) close).later u

lemma run_inv (held : Nat → Bool) {evs : List Ev}
    (hok : Along (Net.step info) (Orderly info) (start held) evs) :
    (runFrom (Net.step info) (start held) evs).Inv info :=
  runFrom_along (Inv info) (start_inv held) (fun _ ev ho h => h.step ev ho) hok

lemma run_later {evs : List Ev} (u : Nat) (h : s.Inv info)
    (hok : Along (Net.step info) (Orderly info) s evs) :
    (s.trunks u).Later ((runFrom (Net.step info) s evs).trunks u) := by
  have hrun := runFrom_along (fun s' => s'.Inv info ∧ (s.trunks u).Later (s'.trunks u))
    ⟨h, .rfl⟩ (fun s' ev ho hs => ⟨hs.1.step ev ho, hs.2.trans (step_later s' ev u hs.1 ho)⟩) hok
  exact hrun.2

/-- The death `i` publishes the record of `g`'s trunk with its next step. -/
def Publishes (s : Net) (i : Nat) (g : Dying) : Prop :=
  s.dying[i]? = some g ∧ g.stage = .queueing [] ∧ (s.trunks g.trunk).death = none

/-- `u` is another trunk of the pair of `t`, established, alive, without a CLOSE and not held. -/
def Other (info : Nat → Info) (s : Net) (t u : Nat) : Prop :=
  u ∈ s.reg ∧ u ≠ t ∧ (info u).pair = (info t).pair ∧ (s.trunks u).death = none ∧
    (s.trunks u).closeSent = false ∧ (s.trunks u).held = false

/-- The session frame that trunk `u` reserves next comes after DOWN(`id`), in the frame order and
in the REL order, unless that DOWN was dropped. -/
def NoticeFirst (info : Nat → Info) (s : Net) (u : Nat) (k : Kind) (x : Nat) (id : UInt32) :
    Prop :=
  ∀ fs f, ((s.step info (.session u k x)).trunks u).frames = fs ++ [f] →
    (s.trunks u).frames.length ≤ fs.length → f.what = .session k →
    id ∈ (s.trunks u).dropped ∨ ∃ d ∈ fs, d.what = .down id ∧
      ((info u).dgram = true → ∃ a b, d.cseq = some a ∧ f.cseq = some b ∧ a < b)

/-- At the publication every other trunk of the pair that is alive has its DOWN noted. -/
lemma Inv.noted (h : s.Inv info) {i : Nat} {g : Dying} (hp : s.Publishes i g)
    (hc : g.cause.sendsDown = true) (ht : g.trunk ∈ s.reg) (hu : s.Other info g.trunk u) :
    (s.trunks u).Noted (info g.trunk).id := by
  obtain ⟨hreg, hne, hpair, hdeath, hclose, -⟩ := hu
  have hok := h.dying g (List.mem_of_getElem? hp.1)
  rcases hok.served [] hp.2.1 hc ht u hreg hpair hne with hm | hd | hd | hn
  · exact absurd hm List.not_mem_nil
  · simp [hdeath] at hd
  · simp [hclose] at hd
  · exact hn

lemma Inv.noticeFirst (h : s.Inv info) {k : Kind} {x : Nat} (hm : (info u).mux = true)
    (hh : (s.trunks u).held = false) (ho : s.Orderly info (.session u k x))
    (hn : (s.trunks u).Noted id) : s.NoticeFirst info u k x id := by
  intro fs f hf hnew hw
  have hf' : ((s.trunks u).session k x).frames = fs ++ [f] := by
    simpa [Net.step, Net.set] using hf
  exact (h.trunks u).session_notice hm hh ho hn hf' hnew hw

end Net

open Net

/-- **The order of a death notice.** In every run whose steps are orderly: when an established
trunk dies with a cause its peer does not know, each reliable session frame that another trunk of
its pair reserves after the record is published comes after the DOWN, unless an overflow dropped
it. No trunk reserves a DOWN that names itself, no ID is pending twice, and a trunk killed by a
received DOWN is of the pair the DOWN arrived on and not retiring. -/
theorem notice_precedes (info : Nat → Info) (held : Nat → Bool) (evs : List Net.Ev)
    (hok : Along (Net.step info) (Orderly info) (start held) evs) :
    let run := runFrom (Net.step info) (start held)
    (∀ before i v after u k x, evs = before ++ .die i v :: after ++ [.session u k x] →
      ∀ g, (run before).Publishes i g → g.cause.sendsDown = true → g.trunk ∈ (run before).reg →
        (run before).Other info g.trunk u →
        (run (before ++ .die i v :: after)).NoticeFirst info u k x (info g.trunk).id) ∧
    (∀ u, ((run evs).trunks u).downs.Nodup ∧
      ∀ f ∈ ((run evs).trunks u).frames, f.what ≠ .down (info u).id) ∧
    (∀ i g a, (run evs).Publishes i g → g.via = some a →
      (info g.trunk).pair = (info a).pair ∧
        ((run evs).trunks g.trunk).retiringForDown = false) := by
  intro run
  have hinv : (run evs).Inv info := run_inv held hok
  refine ⟨?_, fun u => ⟨(hinv.trunks u).nodup, (hinv.trunks u).sent⟩, ?_⟩
  · rintro before i v after u k x rfl g hp hc ht hu
    obtain ⟨hok', hlast⟩ := along_append hok
    obtain ⟨hbefore, hafter⟩ := along_append hok'
    have h₁ : (run before).Inv info := run_inv held hbefore
    have h₂ : (run (before ++ .die i v :: after)).Inv info := run_inv held hok'
    have hl := run_later u h₁ hafter
    rw [← runFrom_append] at hl
    exact h₂.noticeFirst (h₁.mux u hu.1) (hl.held hu.2.2.2.2.2) hlast.1
      (hl.noted _ (h₁.noted hp hc ht hu))
  · intro i g a hp ha
    exact (hinv.dying g (List.mem_of_getElem? hp.1)).chosen a ha (by rw [hp.2.1]; nofun)
      (by rw [hp.2.1]; nofun)

/-- Two established trunks of one pair. -/
def twoTrunks (dgram : Bool) (u : Nat) : Info := ⟨UInt32.ofNat (u + 7), 0, true, dgram⟩

/-- Trunk 1 is in its round, behind its carrier control, when trunk 0 dies: up to the step that
publishes the record. -/
def deathInRound : List Net.Ev :=
  [.add 0, .add 1, .beginRound 1 8 0, .control 1, .setDeath 0 .transportError, .die 0 0, .die 0 0,
    .die 0 1]

/-- The death of trunk 0 after `deathInRound`. -/
def dyingZero : Dying := ⟨0, .transportError, .queueing [], none⟩

lemma deathInRound_orderly :
    Along (Net.step (twoTrunks true)) (Orderly (twoTrunks true)) (start fun _ => false)
      (deathInRound ++ [.die 0 0] ++ [.session 1 .sched 4]) := by
  simp only [deathInRound, List.cons_append, List.nil_append, Along]
  exact ⟨nofun, nofun, trivial, trivial, trivial, trivial, trivial, trivial, trivial, nofun,
    trivial⟩

theorem notice_precedes_sched :
    (runFrom (Net.step (twoTrunks true)) (start fun _ => false)
      (deathInRound ++ [.die 0 0])).NoticeFirst (twoTrunks true) 1 .sched 4 7 :=
  (notice_precedes (twoTrunks true) (fun _ => false) _ deathInRound_orderly).1 deathInRound 0 0 []
    1 .sched 4 rfl dyingZero ⟨rfl, rfl, rfl⟩ rfl (by decide)
    ⟨by decide, by decide, rfl, rfl, rfl, rfl⟩

/-- **A first frame overtakes the notice.** On a stream trunk the JOIN of a view, reserved after
the death was published, stands ahead of the pending DOWN: `addFirst` references the payload as a
body and passes `addSessionRel` by. -/
theorem first_frame_overtakes :
    let run := runFrom (Net.step (twoTrunks false)) (start fun _ => false)
    (run deathInRound).Publishes 0 dyingZero ∧ dyingZero.cause.sendsDown = true ∧
    dyingZero.trunk ∈ (run deathInRound).reg ∧
    (run deathInRound).Other (twoTrunks false) dyingZero.trunk 1 ∧
    ¬(run (deathInRound ++ [.die 0 0])).NoticeFirst (twoTrunks false) 1 .joinFrame 0 7 := by
  refine ⟨⟨rfl, rfl, rfl⟩, rfl, by decide, ⟨by decide, by decide, rfl, rfl, rfl, rfl⟩, ?_⟩
  intro h
  rcases h [] ⟨.session .joinFrame, none⟩ (by decide +kernel) (by decide +kernel) rfl with
    h | ⟨d, hd, -⟩
  · revert h
    decide +kernel
  · exact absurd hd List.not_mem_nil

end Rendr.Carrier.Down
