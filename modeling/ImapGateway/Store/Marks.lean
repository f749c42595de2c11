/-
`\Deleted` marks and the UIDs they are on.

A mark is a row of its own, and nothing in the schema ties it to a row of
`uid_map`.  What is left of it when UIDs are allocated, tombstoned or marked is
said here operation by operation.
-/
import ImapGateway.Store.Live

namespace ImapGateway
namespace Store
namespace Db

variable {d d' : Db} {inboxId name : String}

def IsLive (d : Db) (inboxId name : String) (uid : Nat) : Prop :=
  ∃ k, d.liveUid inboxId name k = some uid

def Marked (d : Db) (inboxId name : String) (uid : Nat) : Prop :=
  uid ∈ d.deletedUids inboxId name

/-- Every mark is on a live UID. -/
def MarksLive (d : Db) : Prop :=
  ∀ i n u, d.Marked i n u → d.IsLive i n u

theorem mem_deletedUids {uid : Nat} :
    d.Marked inboxId name uid ↔ ∃ r ∈ d.deletedMark, r.In inboxId name ∧ r.uid = uid := by
  unfold Marked deletedUids
  simp only [List.mem_map, List.mem_filter, decide_eq_true_eq, and_assoc]

theorem marked_congr (h : d'.deletedMark = d.deletedMark) (i n : String) (u : Nat) :
    d'.Marked i n u ↔ d.Marked i n u := by
  rw [mem_deletedUids, mem_deletedUids, h]

theorem SameLive.isLive {i n : String} (h : SameLive d d' i n) (u : Nat) :
    d'.IsLive i n u ↔ d.IsLive i n u := by
  unfold IsLive
  simp only [h.1]

theorem Allots.isLive {keys : List String} (h : Allots inboxId name keys d d') {i n : String}
    {u : Nat} (hu : d.IsLive i n u) : d'.IsLive i n u := by
  by_cases hk : i = inboxId ∧ n = name
  · obtain ⟨rfl, rfl⟩ := hk
    obtain ⟨k, hlive⟩ := hu
    exact ⟨k, h.kept k u hlive⟩
  · exact ((h.others i n hk).isLive u).mpr hu

theorem marksLive_empty : Db.empty.MarksLive :=
  fun _ _ _ h => absurd h List.not_mem_nil

/-! ## Setting and clearing marks -/

theorem insertMark_marked (r : MarkRow) {u : Nat} :
    (d.insertMark r).Marked inboxId name u ↔
      d.Marked inboxId name u ∨ (r.In inboxId name ∧ r.uid = u) := by
  unfold insertMark
  split
  · rename_i hany
    refine ⟨.inl, fun h => ?_⟩
    rcases h with h | ⟨hin, rfl⟩
    · exact h
    · obtain ⟨x, hx, hxr⟩ := List.any_eq_true.mp hany
      rw [Bool.and_eq_true, decide_eq_true_eq, beq_iff_eq] at hxr
      obtain ⟨hxin, hxu⟩ := hxr
      have hsame : x.In inboxId name := ⟨hxin.1.trans hin.1, hxin.2.trans hin.2⟩
      exact mem_deletedUids.mpr ⟨x, hx, hsame, hxu⟩
  · rw [mem_deletedUids, mem_deletedUids]
    constructor
    · rintro ⟨x, hx, hin, hu⟩
      rcases List.mem_append.mp hx with hx | hx
      · exact .inl ⟨x, hx, hin, hu⟩
      · rw [List.mem_singleton.mp hx] at hin hu
        exact .inr ⟨hin, hu⟩
    · rintro (⟨x, hx, hin, hu⟩ | ⟨hin, hu⟩)
      · exact ⟨x, List.mem_append_left _ hx, hin, hu⟩
      · exact ⟨r, List.mem_append_right _ (List.mem_singleton_self r), hin, hu⟩

theorem setDeleted_true (d : Db) (now inboxId name : String) (uids : List Nat) {i n : String}
    {u : Nat} : (d.setDeleted now inboxId name uids true).Marked i n u ↔
      d.Marked i n u ∨ ((inboxId = i ∧ name = n) ∧ u ∈ uids) := by
  show (uids.foldl (fun d uid => d.insertMark ⟨inboxId, name, uid, now⟩) d).Marked i n u ↔ _
  induction uids generalizing d with
  | nil => simp
  | cons v uids ih =>
    rw [List.foldl_cons, ih, insertMark_marked, List.mem_cons]
    have hin : MarkRow.In i n ⟨inboxId, name, v, now⟩ ↔ inboxId = i ∧ name = n := Iff.rfl
    have hv : v = u ↔ u = v := eq_comm
    rw [hin]
    show (_ ∨ (inboxId = i ∧ name = n) ∧ v = u) ∨ _ ↔ _
    rw [hv]
    tauto

theorem setDeleted_false (d : Db) (now inboxId name : String) (uids : List Nat) {i n : String}
    {u : Nat} : (d.setDeleted now inboxId name uids false).Marked i n u ↔
      d.Marked i n u ∧ ¬((inboxId = i ∧ name = n) ∧ u ∈ uids) := by
  have heq : d.setDeleted now inboxId name uids false = _ := foldl_deleteMark uids
  rw [heq, mem_deletedUids, mem_deletedUids]
  simp only [List.mem_filter, decide_eq_true_eq]
  constructor
  · rintro ⟨r, ⟨hr, hnot⟩, hin, hu⟩
    refine ⟨⟨r, hr, hin, hu⟩, fun hclear => hnot ⟨?_, hu ▸ hclear.2⟩⟩
    exact ⟨hin.1.trans hclear.1.1.symm, hin.2.trans hclear.1.2.symm⟩
  · rintro ⟨⟨r, hr, hin, hu⟩, hnot⟩
    refine ⟨r, ⟨hr, fun hclear => hnot ⟨⟨?_, ?_⟩, hu ▸ hclear.2⟩⟩, hin, hu⟩
    · exact hclear.1.1.symm.trans hin.1
    · exact hclear.1.2.symm.trans hin.2

/-! ## Tombstones -/

/-- A tombstone step takes the marks of the UIDs it tombstones, and no others. -/
theorem Ok.tombstoneMissing_marked (h : d.Ok) (now inboxId name : String) (present : List String)
    {i n : String} {u : Nat} :
    (d.tombstoneMissing now inboxId name present).Marked i n u ↔
      d.Marked i n u ∧ ¬((inboxId = i ∧ name = n) ∧
        ∃ k, d.liveUid inboxId name k = some u ∧ k ∉ present) := by
  have hgone : ∀ u, u ∈ gone present (d.liveMap inboxId name) ↔
      ∃ k, d.liveUid inboxId name k = some u ∧ k ∉ present := by
    intro u
    rw [mem_gone]
    simp only [h.liveUid_eq_some]
  rw [h.tombstoneMissing_eq, mem_deletedUids, mem_deletedUids]
  simp only [List.mem_filter, decide_eq_true_eq, hgone]
  constructor
  · rintro ⟨r, ⟨hr, hnot⟩, hin, rfl⟩
    refine ⟨⟨r, hr, hin, rfl⟩, fun hg => hnot ⟨?_, hg.2⟩⟩
    exact ⟨hin.1.trans hg.1.1.symm, hin.2.trans hg.1.2.symm⟩
  · rintro ⟨⟨r, hr, hin, rfl⟩, hnot⟩
    refine ⟨r, ⟨hr, fun hg => hnot ⟨⟨?_, ?_⟩, hg.2⟩⟩, hin, rfl⟩
    · exact hg.1.1.symm.trans hin.1
    · exact hg.1.2.symm.trans hin.2

/-! ## What an operation can do to the marks -/

/-- Marks appear only where `set` says, vanish with the UIDs they are on or where
`clear` says, and no mark stays on a UID that vanishes. -/
structure MarksStep (set clear : String → String → Nat → Prop) (d d' : Db) : Prop where
  marked : ∀ i n u, d'.Marked i n u → d.Marked i n u ∨ set i n u
  kept : ∀ i n u, d.Marked i n u →
    d'.Marked i n u ∨ (d.IsLive i n u ∧ ¬d'.IsLive i n u) ∨ clear i n u
  live : ∀ i n u, d'.Marked i n u → d.IsLive i n u → d'.IsLive i n u
  made : ∀ i n u, set i n u → d'.Marked i n u

def Never (_ _ : String) (_ : Nat) : Prop := False

/-- No mark is touched and no UID vanishes. -/
theorem MarksStep.of_same (hmarks : ∀ i n u, d'.Marked i n u ↔ d.Marked i n u)
    (hlive : ∀ i n u, d.IsLive i n u → d'.IsLive i n u) : MarksStep Never Never d d' where
  marked i n u h := .inl ((hmarks i n u).mp h)
  kept i n u h := .inl ((hmarks i n u).mpr h)
  live i n u _ h := hlive i n u h
  made _ _ _ h := h.elim

theorem ensureMailbox_marks (d : Db) (v : Nat) (inboxId name : String) :
    MarksStep Never Never d (d.ensureMailbox v inboxId name).1 := by
  obtain ⟨_, hmark, _⟩ := ensureMailbox_spec d v inboxId name
  refine .of_same (marked_congr hmark) fun i n u hu => ?_
  exact ((ensureMailbox_sameLive d v inboxId name i n).isLive u).mpr hu

theorem Ok.ensureUids_marks (h : d.Ok) (v : Nat) (now inboxId name : String)
    (keys : List (String × String)) :
    MarksStep Never Never d (d.ensureUids v now inboxId name keys).1 := by
  refine .of_same (marked_congr (ensureUids_ensured v now inboxId name keys).deletedMark) ?_
  exact fun i n u hu => (h.ensureUids_allots v now inboxId name keys).isLive hu

theorem Ok.ensureUids_ensureMailbox_marks (h : d.Ok) (v v' : Nat) (now inboxId name : String)
    (keys : List (String × String)) : MarksStep Never Never d
      ((d.ensureUids v now inboxId name keys).1.ensureMailbox v' inboxId name).1 := by
  have huids := ensureUids_ensured (d := d) v now inboxId name keys
  have hrow := ensureMailbox_spec (d.ensureUids v now inboxId name keys).1 v' inboxId name
  refine .of_same (marked_congr (hrow.2.1.trans huids.deletedMark)) fun i n u hu => ?_
  have hallot := (h.ensureUids_allots v now inboxId name keys).isLive hu
  exact ((ensureMailbox_sameLive _ v' inboxId name i n).isLive u).mpr hallot

theorem setDeleted_marks (d : Db) (now inboxId name : String) (uids : List Nat) (value : Bool) :
    MarksStep (fun i n u => value = true ∧ (inboxId = i ∧ name = n) ∧ u ∈ uids)
      (fun i n u => value = false ∧ (inboxId = i ∧ name = n) ∧ u ∈ uids) d
      (d.setDeleted now inboxId name uids value) := by
  have hlive := fun i n u => (setDeleted_sameLive d now inboxId name uids value i n).isLive u
  cases value with
  | true =>
    refine ⟨fun i n u hm => ?_, fun i n u hm => .inl ?_, fun i n u _ hu => (hlive i n u).mpr hu,
      fun i n u hset => ?_⟩
    · exact ((setDeleted_true d now inboxId name uids).mp hm).imp_right fun hset => ⟨rfl, hset⟩
    · exact (setDeleted_true d now inboxId name uids).mpr (.inl hm)
    · exact (setDeleted_true d now inboxId name uids).mpr (.inr hset.2)
  | false =>
    refine ⟨fun i n u hm => ?_, fun i n u hm => ?_, fun i n u _ hu => (hlive i n u).mpr hu,
      fun i n u hset => ?_⟩
    · exact .inl ((setDeleted_false d now inboxId name uids).mp hm).1
    · by_cases hclear : (inboxId = i ∧ name = n) ∧ u ∈ uids
      · exact .inr (.inr ⟨rfl, hclear⟩)
      · exact .inl ((setDeleted_false d now inboxId name uids).mpr ⟨hm, hclear⟩)
    · cases hset.1

/-- The three store calls of a listing: marks go with the UIDs that vanish. -/
theorem Ok.reconciled_marks (h : d.Ok) (v v' : Nat) (now now' inboxId name : String)
    (keys : List (String × String)) :
    MarksStep Never Never d
      (((d.ensureUids v now inboxId name keys).1.tombstoneMissing now' inboxId name
        (keys.map (·.1))).ensureMailbox v' inboxId name).1 := by
  have hal := h.ensureUids_allots v now inboxId name keys
  have h₁ := h.ensureUids v now inboxId name keys
  have hsame : ∀ i n u, (d.ensureUids v now inboxId name keys).1.Marked i n u ↔ d.Marked i n u :=
    marked_congr (ensureUids_ensured v now inboxId name keys).deletedMark
  generalize (d.ensureUids v now inboxId name keys).1 = d₁ at hal h₁ hsame
  have htomb := h₁.tombstoneMissing_live now' inboxId name (keys.map (·.1))
  have hothers := fun {i n : String} (hk : ¬(i = inboxId ∧ n = name)) =>
    h₁.tombstoneMissing_others now' inboxId name (keys.map (·.1)) hk
  have hmarks := fun i n u => h₁.tombstoneMissing_marked now' inboxId name (keys.map (·.1))
    (i := i) (n := n) (u := u)
  generalize d₁.tombstoneMissing now' inboxId name (keys.map (·.1)) = d₂ at htomb hothers hmarks
  have hlast : ∀ i n u, (d₂.ensureMailbox v' inboxId name).1.Marked i n u ↔ d₂.Marked i n u :=
    marked_congr (ensureMailbox_spec d₂ v' inboxId name).2.1
  have hlastLive := fun i n u => (ensureMailbox_sameLive d₂ v' inboxId name i n).isLive u
  refine ⟨fun i n u hm => .inl ?_, fun i n u hm => ?_, fun i n u hm hu => ?_, fun _ _ _ h => h.elim⟩
  · exact (hsame i n u).mp ((hmarks i n u).mp ((hlast i n u).mp hm)).1
  · by_cases hg : (inboxId = i ∧ name = n) ∧
        ∃ k, d₁.liveUid inboxId name k = some u ∧ k ∉ keys.map (·.1)
    · obtain ⟨⟨rfl, rfl⟩, k, hk, hnot⟩ := hg
      refine .inr (.inl ⟨⟨k, ?_⟩, ?_⟩)
      · -- A key that was allocated just now is present.
        cases hold : d.liveUid inboxId name k with
        | none => exact absurd (hal.fresh k u hold hk).1 hnot
        | some w => rw [← hal.kept k w hold, hk]
      · rw [hlastLive]
        rintro ⟨k', hk'⟩
        rw [htomb] at hk'
        split at hk'
        · rename_i hin
          rw [h₁.liveUid_inj hk' hk] at hin
          exact hnot hin
        · cases hk'
    · exact .inl ((hlast i n u).mpr ((hmarks i n u).mpr ⟨(hsame i n u).mpr hm, hg⟩))
  · rw [hlastLive]
    have hlive₁ := hal.isLive hu
    by_cases hk : i = inboxId ∧ n = name
    · obtain ⟨rfl, rfl⟩ := hk
      obtain ⟨k, hk⟩ := hlive₁
      refine ⟨k, ?_⟩
      rw [htomb]
      split
      · exact hk
      · rename_i hnot
        exact absurd ⟨⟨rfl, rfl⟩, k, hk, hnot⟩ ((hmarks i n u).mp ((hlast i n u).mp hm)).2
    · exact ((hothers hk).isLive u).mpr hlive₁

/-- Marks stay on live UIDs if no mark is set on a UID that is not live. -/
theorem MarksStep.marksLive {set clear : String → String → Nat → Prop}
    (h : MarksStep set clear d d') (hlive : d.MarksLive)
    (hset : ∀ i n u, set i n u → d.IsLive i n u) : d'.MarksLive := by
  intro i n u hm
  rcases h.marked i n u hm with hold | hnew
  · exact h.live i n u hm (hlive i n u hold)
  · exact h.live i n u hm (hset i n u hnew)

end Db
end Store
end ImapGateway
