/-
The operations seen through the live UIDs.

What the gateway relies on is which keys are live, under which UID, and what the
next UID of a mailbox is.  `Allots` and `Reconciled` say it for an allocation and
for the whole of what a listing does to a mailbox.
-/
import ImapGateway.Store.Invariant

namespace ImapGateway
namespace Store
namespace Db

variable {d d' : Db} {inboxId name : String}

theorem liveUid_congr (h : d'.uidMap = d.uidMap) (i n k : String) :
    d'.liveUid i n k = d.liveUid i n k := by rw [liveUid, liveMap_congr h, liveUid]

theorem nextUid_congr (h : d'.mailbox = d.mailbox) (i n : String) :
    d'.nextUid i n = d.nextUid i n := by rw [nextUid, selectMailbox, h]; rfl

theorem Ok.liveUid_lt (h : d.Ok) {k : String} {u : Nat} (hu : d.liveUid inboxId name k = some u) :
    u < d.nextUid inboxId name := by
  obtain ⟨r, hr, hin, _, _, rfl⟩ := mem_liveMap.mp (h.liveUid_eq_some.mp hu)
  exact h.lt_nextUid hr hin

/-- Two live keys of one UID are the same key. -/
theorem Ok.liveUid_inj (h : d.Ok) {k k' : String} {u : Nat}
    (hk : d.liveUid inboxId name k = some u) (hk' : d.liveUid inboxId name k' = some u) :
    k = k' := by
  obtain ⟨r, hr, hin, _, rfl, rfl⟩ := mem_liveMap.mp (h.liveUid_eq_some.mp hk)
  obtain ⟨r', hr', hin', _, rfl, hu⟩ := mem_liveMap.mp (h.liveUid_eq_some.mp hk')
  rw [h.eq_of_uid hr hr' hin hin' hu.symm]

/-- Nothing about the live UIDs of a mailbox differs. -/
def SameLive (d d' : Db) (inboxId name : String) : Prop :=
  (∀ k, d'.liveUid inboxId name k = d.liveUid inboxId name k) ∧
    d'.nextUid inboxId name = d.nextUid inboxId name

theorem SameLive.of_tables (hm : d'.mailbox = d.mailbox) (hu : d'.uidMap = d.uidMap)
    (i n : String) : SameLive d d' i n :=
  ⟨liveUid_congr hu i n, nextUid_congr hm i n⟩

theorem SameLive.trans {d₁ d₂ d₃ : Db} (h : SameLive d₁ d₂ inboxId name)
    (h' : SameLive d₂ d₃ inboxId name) : SameLive d₁ d₃ inboxId name :=
  ⟨fun k => (h'.1 k).trans (h.1 k), h'.2.trans h.2⟩

/-- Making a mailbox's row changes no live UID and no next UID. -/
theorem ensureMailbox_sameLive (d : Db) (v : Nat) (inboxId name i n : String) :
    SameLive d (d.ensureMailbox v inboxId name).1 i n := by
  obtain ⟨huid, _, hsel, hnext, hothers, _⟩ := ensureMailbox_spec d v inboxId name
  refine ⟨liveUid_congr huid i n, ?_⟩
  by_cases hk : i = inboxId ∧ n = name
  · obtain ⟨rfl, rfl⟩ := hk
    rw [nextUid, hsel]
    exact hnext
  · rw [nextUid, hothers i n hk, nextUid]

theorem setDeleted_sameLive (d : Db) (now inboxId name : String) (uids : List Nat) (value : Bool)
    (i n : String) : SameLive d (d.setDeleted now inboxId name uids value) i n := by
  obtain ⟨hm, hu⟩ := setDeleted_tables d now inboxId name uids value
  exact SameLive.of_tables hm hu i n

/-- What an allocation for `keys` does to the live UIDs. -/
structure Allots (inboxId name : String) (keys : List String) (d d' : Db) : Prop where
  kept : ∀ k u, d.liveUid inboxId name k = some u → d'.liveUid inboxId name k = some u
  live : ∀ k ∈ keys, ∃ u, d'.liveUid inboxId name k = some u
  fresh : ∀ k u, d.liveUid inboxId name k = none → d'.liveUid inboxId name k = some u →
    k ∈ keys ∧ d.nextUid inboxId name ≤ u
  next : d.nextUid inboxId name ≤ d'.nextUid inboxId name
  others : ∀ i n, ¬(i = inboxId ∧ n = name) → SameLive d d' i n

theorem Ensured.allots {now : String} {keys : List (String × String)} {live : List (String × Nat)}
    (h : d.Ok) (h' : d'.Ok) (he : Ensured d inboxId name now keys d' live) :
    Allots inboxId name (keys.map (·.1)) d d' where
  kept k u hu := by
    obtain ⟨r, hr, hin, hl, hk, hu⟩ := mem_liveMap.mp (h.liveUid_eq_some.mp hu)
    refine h'.liveUid_eq_some.mpr (mem_liveMap.mpr ⟨r, ?_, hin, hl, hk, hu⟩)
    rw [he.uidMap]
    exact List.mem_append_left _ hr
  live k hk := by
    obtain ⟨key, hkey, rfl⟩ := List.mem_map.mp hk
    exact he.isSome h' hkey
  fresh k u hnone hu := by
    obtain ⟨r, hr, hin, hl, rfl, rfl⟩ := mem_liveMap.mp (h'.liveUid_eq_some.mp hu)
    rw [he.uidMap] at hr
    rcases List.mem_append.mp hr with hr | hr
    · rw [h.liveUid_eq_some.mpr (mem_liveMap.mpr ⟨r, hr, hin, hl, rfl, rfl⟩)] at hnone
      cases hnone
    · obtain ⟨_, _, hmem, hle, _⟩ := mem_newRows hr
      exact ⟨((mem_freshKeys _ _ _).mp (List.mem_map.mpr ⟨_, hmem, rfl⟩)).1, hle⟩
  next := by
    obtain ⟨v, hrow, _⟩ := he.row
    rw [nextUid_eq hrow]
    exact Nat.le_add_right _ _
  others i n hk := by
    refine ⟨fun k => ?_, by rw [nextUid, he.others i n hk, nextUid]⟩
    have hmap : d'.liveMap i n = d.liveMap i n := by
      have hnew : ((newRows inboxId name now (d.unseen inboxId name keys)
          (d.nextUid inboxId name)).filter fun r => decide (r.In i n) && r.live) = [] := by
        refine List.filter_eq_nil_iff.mpr fun r hr => ?_
        have hin := (mem_newRows hr).1
        have : ¬r.In i n := fun hr => hk ⟨hr.1.symm.trans hin.1, hr.2.symm.trans hin.2⟩
        simp [this]
      rw [liveMap, he.uidMap, List.filter_append, hnew, List.append_nil, liveMap]
    rw [liveUid, hmap, liveUid]

theorem Ok.ensureUids_allots (h : d.Ok) (v : Nat) (now inboxId name : String)
    (keys : List (String × String)) :
    Allots inboxId name (keys.map (·.1)) d (d.ensureUids v now inboxId name keys).1 :=
  (ensureUids_ensured v now inboxId name keys).allots h (h.ensureUids v now inboxId name keys)

/-- The map `ensure_uids` returns is the live map it leaves. -/
theorem ensureUids_lookup (v : Nat) (now inboxId name k : String) (keys : List (String × String)) :
    (d.ensureUids v now inboxId name keys).2.lookup k =
      (d.ensureUids v now inboxId name keys).1.liveUid inboxId name k := by
  rw [liveUid, ← (ensureUids_ensured v now inboxId name keys).live]

/-! ### The order of new UIDs -/

/-- Of distinct keys those without a UID are the fresh ones. -/
theorem freshKeys_eq_filter {keys : List (String × String)} (h : (keys.map (·.1)).Nodup)
    (seen : List String) : freshKeys keys seen = keys.filter fun key => decide (key.1 ∉ seen) := by
  induction keys generalizing seen with
  | nil => rfl
  | cons key keys ih =>
    obtain ⟨hnew, hrest⟩ := List.nodup_cons.mp h
    by_cases hseen : key.1 ∈ seen
    · rw [freshKeys, if_pos hseen, ih hrest, List.filter_cons_of_neg (by simpa using hseen)]
    · rw [freshKeys, if_neg hseen, ih hrest, List.filter_cons_of_pos (by simpa using hseen)]
      congr 1
      apply List.filter_congr
      intro other hother
      have hmem : other.1 ∈ keys.map (·.1) := List.mem_map_of_mem hother
      have hne : other.1 ≠ key.1 := fun heq => hnew (show key.1 ∈ _ from heq ▸ hmem)
      simp [hne]

theorem Ok.isNone_liveUid (h : d.Ok) (k : String) :
    (d.liveUid inboxId name k).isNone = true ↔ k ∉ (d.liveMap inboxId name).map (·.1) := by
  rw [Option.isNone_iff_eq_none, Option.eq_none_iff_forall_ne_some, List.mem_map]
  constructor
  · rintro hnone ⟨⟨k', u⟩, hmem, rfl⟩
    exact hnone u (h.liveUid_eq_some.mpr hmem)
  · intro hnone u hu
    exact hnone ⟨(k, u), h.liveUid_eq_some.mp hu, rfl⟩

/-- Keys without a UID get consecutive ones, in the order of the keys. -/
theorem Ok.ensureUids_consecutive (h : d.Ok) (v : Nat) (now inboxId name : String)
    {keys : List (String × String)} (hkeys : (keys.map (·.1)).Nodup) :
    let new := keys.filter fun key => (d.liveUid inboxId name key.1).isNone
    new.map (fun key => (d.ensureUids v now inboxId name keys).1.liveUid inboxId name key.1) =
      (List.range' (d.nextUid inboxId name) new.length).map some := by
  intro new
  have hnew : d.unseen inboxId name keys = new := by
    rw [unseen, freshKeys_eq_filter hkeys]
    apply List.filter_congr
    intro key _
    rw [Bool.eq_iff_iff, decide_eq_true_iff, h.isNone_liveUid]
  have he := d.ensureUids_ensured v now inboxId name keys
  have hlive : (d.ensureUids v now inboxId name keys).1.liveMap inboxId name =
      d.liveMap inboxId name ++ (new.zipIdx (d.nextUid inboxId name)).map fun x => (x.1.1, x.2) := by
    rw [← hnew, ← liveMap_append_newRows d inboxId name now]
    exact liveMap_congr he.uidMap inboxId name
  have hok := h.ensureUids v now inboxId name keys
  apply List.ext_getElem
  · simp
  · intro i hi _
    rw [List.length_map] at hi
    rw [List.getElem_map, List.getElem_map, List.getElem_range', hok.liveUid_eq_some, hlive]
    apply List.mem_append_right
    rw [List.mem_map]
    refine ⟨(new[i], d.nextUid inboxId name + 1 * i), ?_, rfl⟩
    rw [List.mk_mem_zipIdx_iff_le_and_getElem?_sub]
    simp [List.getElem?_eq_getElem hi]

/-- A tombstone step leaves the keys present as they are and no other key live. -/
theorem Ok.tombstoneMissing_live (h : d.Ok) (now inboxId name : String) (present : List String)
    (k : String) :
    (d.tombstoneMissing now inboxId name present).liveUid inboxId name k =
      if k ∈ present then d.liveUid inboxId name k else none := by
  have h' := h.tombstoneMissing now inboxId name present
  have hmem : ∀ u, (d.tombstoneMissing now inboxId name present).liveUid inboxId name k = some u ↔
      k ∈ present ∧ d.liveUid inboxId name k = some u := by
    intro u
    rw [h'.liveUid_eq_some, h.liveUid_eq_some, mem_liveMap, mem_liveMap, h.tombstoneMissing_eq]
    simp only [List.mem_map]
    constructor
    · rintro ⟨_, ⟨r, hr, rfl⟩, hin, hl, hk, hu⟩
      by_cases hg : Gone inboxId name present r
      · rw [if_pos hg] at hl; cases hl
      · rw [if_neg hg] at hin hl hk hu
        refine ⟨?_, r, hr, hin, hl, hk, hu⟩
        by_contra hp
        exact hg ⟨hin, hl, by rwa [hk]⟩
    · rintro ⟨hp, r, hr, hin, hl, hk, hu⟩
      have hg : ¬Gone inboxId name present r := fun hg => hg.2.2 (by rwa [hk])
      exact ⟨r, ⟨r, hr, if_neg hg⟩, hin, hl, hk, hu⟩
  split
  · rename_i hp
    refine Option.ext fun u => ?_
    rw [hmem u]
    exact and_iff_right hp
  · rename_i hp
    refine Option.eq_none_iff_forall_ne_some.mpr fun u hu => ?_
    exact hp ((hmem u).mp hu).1

theorem Ok.tombstoneMissing_others (h : d.Ok) (now inboxId name : String) (present : List String)
    {i n : String} (hk : ¬(i = inboxId ∧ n = name)) :
    SameLive d (d.tombstoneMissing now inboxId name present) i n := by
  rw [h.tombstoneMissing_eq]
  refine ⟨fun k => ?_, rfl⟩
  rw [liveUid, liveUid]
  congr 1
  simp only [liveMap]
  induction d.uidMap with
  | nil => rfl
  | cons r l ih =>
    rw [List.map_cons, List.filter_cons, List.filter_cons]
    by_cases hg : Gone inboxId name present r
    · have hr : ¬r.In i n := fun hr => hk ⟨hr.1.symm.trans hg.1.1, hr.2.symm.trans hg.1.2⟩
      have hr' : ¬UidRow.In i n { r with vanishedAt := some now } := hr
      simp [hg, hr, hr', ih]
    · rw [if_neg hg]
      split
      · rw [List.map_cons, List.map_cons, ih]
      · exact ih

/-- What a listing showing `keys` does to a mailbox. -/
structure Reconciled (inboxId name : String) (keys : List String) (d d' : Db) : Prop where
  ok : d'.Ok
  kept : ∀ k ∈ keys, ∀ u, d.liveUid inboxId name k = some u → d'.liveUid inboxId name k = some u
  live : ∀ k, (∃ u, d'.liveUid inboxId name k = some u) ↔ k ∈ keys
  fresh : ∀ k u, d.liveUid inboxId name k = none → d'.liveUid inboxId name k = some u →
    d.nextUid inboxId name ≤ u
  next : d.nextUid inboxId name ≤ d'.nextUid inboxId name
  others : ∀ i n, ¬(i = inboxId ∧ n = name) → SameLive d d' i n

theorem Ok.reconciled (h : d.Ok) (v v' : Nat) (now now' inboxId name : String)
    (keys : List (String × String)) :
    Reconciled inboxId name (keys.map (·.1)) d
      (((d.ensureUids v now inboxId name keys).1.tombstoneMissing now' inboxId name
        (keys.map (·.1))).ensureMailbox v' inboxId name).1 := by
  have hal := h.ensureUids_allots v now inboxId name keys
  have h₁ := h.ensureUids v now inboxId name keys
  generalize (d.ensureUids v now inboxId name keys).1 = d₁ at hal h₁
  have h₂ := h₁.tombstoneMissing now' inboxId name (keys.map (·.1))
  have htomb := h₁.tombstoneMissing_live now' inboxId name (keys.map (·.1))
  have hrow := ensureMailbox_sameLive (d₁.tombstoneMissing now' inboxId name (keys.map (·.1))) v'
    inboxId name
  have hlive : ∀ k, (((d₁.tombstoneMissing now' inboxId name (keys.map (·.1))).ensureMailbox v'
      inboxId name).1).liveUid inboxId name k =
      if k ∈ keys.map (·.1) then d₁.liveUid inboxId name k else none :=
    fun k => ((hrow inboxId name).1 k).trans (htomb k)
  refine ⟨h₂.ensureMailbox v' inboxId name, fun k hk u hu => ?_, fun k => ⟨?_, fun hk => ?_⟩,
    fun k u hnone hu => ?_, ?_, fun i n hk => ?_⟩
  · rw [hlive, if_pos hk]
    exact hal.kept k u hu
  · rintro ⟨u, hu⟩
    rw [hlive] at hu
    by_contra hk
    rw [if_neg hk] at hu
    cases hu
  · obtain ⟨u, hu⟩ := hal.live k hk
    exact ⟨u, by rw [hlive, if_pos hk]; exact hu⟩
  · rw [hlive] at hu
    split at hu
    · exact (hal.fresh k u hnone hu).2
    · cases hu
  · rw [(hrow inboxId name).2]
    have : (d₁.tombstoneMissing now' inboxId name (keys.map (·.1))).nextUid inboxId name =
        d₁.nextUid inboxId name := by rw [h₁.tombstoneMissing_eq]; rfl
    rw [this]
    exact hal.next
  · exact ((hal.others i n hk).trans (h₁.tombstoneMissing_others now' inboxId name _ hk)).trans
      (hrow i n)

/-- A listing gives the keys it shows first consecutive UIDs, in their order. -/
theorem Ok.reconciled_consecutive (h : d.Ok) (v v' : Nat) (now now' inboxId name : String)
    {keys : List (String × String)} (hkeys : (keys.map (·.1)).Nodup) :
    let new := keys.filter fun key => (d.liveUid inboxId name key.1).isNone
    new.map (fun key => (((d.ensureUids v now inboxId name keys).1.tombstoneMissing now' inboxId name
        (keys.map (·.1))).ensureMailbox v' inboxId name).1.liveUid inboxId name key.1) =
      (List.range' (d.nextUid inboxId name) new.length).map some := by
  intro new
  rw [← h.ensureUids_consecutive v now inboxId name hkeys]
  apply List.map_congr_left
  intro key hkey
  have hmem : key.1 ∈ keys.map (·.1) := List.mem_map_of_mem (List.mem_of_mem_filter hkey)
  rw [(ensureMailbox_sameLive _ v' inboxId name inboxId name).1,
    (h.ensureUids v now inboxId name keys).tombstoneMissing_live, if_pos hmem]

/-! ### Growth -/

/-- Next UIDs only grow, and a key live now was live under the same UID before or
has got one from the next UID on. -/
def Grows (d d' : Db) : Prop :=
  ∀ i n, d.nextUid i n ≤ d'.nextUid i n ∧
    ∀ k u, d'.liveUid i n k = some u → d.liveUid i n k = some u ∨ d.nextUid i n ≤ u

theorem Grows.refl (d : Db) : Grows d d := fun _ _ => ⟨Nat.le_refl _, fun _ _ hu => .inl hu⟩

theorem Grows.trans {d₁ d₂ d₃ : Db} (h : Grows d₁ d₂) (h' : Grows d₂ d₃) : Grows d₁ d₃ := by
  intro i n
  refine ⟨(h i n).1.trans (h' i n).1, fun k u hu => ?_⟩
  rcases (h' i n).2 k u hu with hu | hle
  · exact (h i n).2 k u hu
  · exact .inr ((h i n).1.trans hle)

theorem SameLive.grows (h : ∀ i n, SameLive d d' i n) : Grows d d' := by
  intro i n
  refine ⟨(h i n).2.ge, fun k u hu => .inl ?_⟩
  rw [← (h i n).1 k, hu]

/-- A UID live after an allocation or a listing was live before or is new, if that
is so of the mailbox itself and the others are as before. -/
theorem Grows.of_mailbox (hnext : d.nextUid inboxId name ≤ d'.nextUid inboxId name)
    (hkept : ∀ k u v, d.liveUid inboxId name k = some u → d'.liveUid inboxId name k = some v → v = u)
    (hfresh : ∀ k u, d.liveUid inboxId name k = none → d'.liveUid inboxId name k = some u →
      d.nextUid inboxId name ≤ u)
    (hothers : ∀ i n, ¬(i = inboxId ∧ n = name) → SameLive d d' i n) : Grows d d' := by
  intro i n
  by_cases hk : i = inboxId ∧ n = name
  · obtain ⟨rfl, rfl⟩ := hk
    refine ⟨hnext, fun k u hu => ?_⟩
    cases hlive : d.liveUid i n k with
    | none => exact .inr (hfresh k u hlive hu)
    | some v => exact .inl (by rw [hkept k v u hlive hu])
  · refine ⟨(hothers i n hk).2.ge, fun k u hu => .inl ?_⟩
    rw [← (hothers i n hk).1 k, hu]

theorem Allots.grows {keys : List String} (h : Allots inboxId name keys d d') : Grows d d' :=
  .of_mailbox h.next (fun k u _ hu hv => Option.some.inj (hv.symm.trans (h.kept k u hu)))
    (fun k u hn hu => (h.fresh k u hn hu).2) h.others

theorem Reconciled.grows {keys : List String} (h : Reconciled inboxId name keys d d') :
    Grows d d' := by
  refine .of_mailbox h.next (fun k u _ hu hv => ?_) h.fresh h.others
  exact Option.some.inj (hv.symm.trans (h.kept k ((h.live k).mp ⟨_, hv⟩) u hu))

end Db
end Store
end ImapGateway
