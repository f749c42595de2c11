/-
The invariant of the UID store's tables.

Within a mailbox the rows of `uid_map` stand in the order of their UIDs, every
UID is below the mailbox's next one, and no two live rows share a remote key.
Each operation keeps this, and its effect on the live UIDs is stated here once,
so that nothing above has to look into the tables.
-/
import ImapGateway.Store.UidStore

namespace ImapGateway
namespace Store
namespace Db

variable {d : Db} {inboxId name : String}

structure Ok (d : Db) : Prop where
  mailboxes : d.mailbox.Pairwise fun r r' => ¬r'.In r.inboxId r.name
  ascending : d.uidMap.Pairwise fun r r' => r'.In r.inboxId r.name → r.uid < r'.uid
  liveKeys : d.uidMap.Pairwise fun r r' =>
    r'.In r.inboxId r.name → r.live → r'.live → r.remoteKey ≠ r'.remoteKey
  bound : ∀ r ∈ d.uidMap, ∃ row, d.selectMailbox r.inboxId r.name = some row ∧ r.uid < row.2

theorem ok_empty : Db.empty.Ok where
  mailboxes := List.Pairwise.nil
  ascending := List.Pairwise.nil
  liveKeys := List.Pairwise.nil
  bound := by intro r hr; cases hr

/-! ## Mailbox rows -/

theorem selectMailbox_addMailbox (h : d.selectMailbox inboxId name = none) (v : Nat)
    (i n : String) :
    (d.addMailbox inboxId name v).selectMailbox i n =
      if i = inboxId ∧ n = name then some (v, 1) else d.selectMailbox i n := by
  simp only [selectMailbox, addMailbox, List.find?_append, Option.map_eq_none_iff] at h ⊢
  by_cases hk : i = inboxId ∧ n = name
  · obtain ⟨rfl, rfl⟩ := hk
    rw [h]
    simp [MailboxRow.In]
  · have hnew : ¬MailboxRow.In i n ⟨inboxId, name, v, 1⟩ :=
      fun hk' => hk ⟨hk'.1.symm, hk'.2.symm⟩
    simp [hnew, hk]

theorem selectMailbox_setNextUid (u : Nat) (i n : String) :
    (d.setNextUid inboxId name u).selectMailbox i n =
      if i = inboxId ∧ n = name then (d.selectMailbox i n).map fun row => (row.1, u)
      else d.selectMailbox i n := by
  have hp : (fun r : MailboxRow => decide (r.In i n)) ∘
      (fun r : MailboxRow => if r.In inboxId name then { r with nextUid := u } else r) =
      fun r => decide (r.In i n) := by
    funext r
    simp only [Function.comp]
    split <;> rfl
  simp only [selectMailbox, setNextUid, List.find?_map, hp, Option.map_map]
  cases hf : d.mailbox.find? fun r => decide (r.In i n) with
  | none => simp
  | some r =>
    have hr : r.In i n := by simpa using List.find?_some hf
    by_cases hk : i = inboxId ∧ n = name
    · have hin : r.In inboxId name := by rw [← hk.1, ← hk.2]; exact hr
      simp only [if_pos hk, Option.map_some, Function.comp, if_pos hin]
    · have hin : ¬r.In inboxId name :=
        fun hr' => hk ⟨hr.1.symm.trans hr'.1, hr.2.symm.trans hr'.2⟩
      simp only [if_neg hk, Option.map_some, Function.comp, if_neg hin]

theorem mailbox_notIn (h : d.selectMailbox inboxId name = none) :
    ∀ r ∈ d.mailbox, ¬r.In inboxId name := by
  simpa [selectMailbox, List.find?_eq_none] using h

/-- Making the row of a mailbox leaves every other row alone. -/
theorem ensureMailbox_spec (d : Db) (v : Nat) (inboxId name : String) :
    (d.ensureMailbox v inboxId name).1.uidMap = d.uidMap ∧
    (d.ensureMailbox v inboxId name).1.deletedMark = d.deletedMark ∧
    (d.ensureMailbox v inboxId name).1.selectMailbox inboxId name =
      some (d.ensureMailbox v inboxId name).2 ∧
    (d.ensureMailbox v inboxId name).2.2 = d.nextUid inboxId name ∧
    (∀ i n, ¬(i = inboxId ∧ n = name) →
      (d.ensureMailbox v inboxId name).1.selectMailbox i n = d.selectMailbox i n) ∧
    ∀ row, d.selectMailbox inboxId name = some row → (d.ensureMailbox v inboxId name).2 = row := by
  cases h : d.selectMailbox inboxId name with
  | some row => simp [ensureMailbox, nextUid, h]
  | none =>
    simp only [ensureMailbox, h, selectMailbox_addMailbox h, nextUid]
    simp [addMailbox]
    intro i n hk hi hn
    exact absurd hn (hk hi)

theorem Ok.ensureMailbox (h : d.Ok) (v : Nat) (inboxId name : String) :
    (d.ensureMailbox v inboxId name).1.Ok := by
  cases hs : d.selectMailbox inboxId name with
  | some row => simpa [Db.ensureMailbox, hs] using h
  | none =>
    simp only [Db.ensureMailbox, hs]
    refine ⟨?_, h.ascending, h.liveKeys, fun r hr => ?_⟩
    · refine List.pairwise_append.mpr ⟨h.mailboxes, List.pairwise_singleton _ _, ?_⟩
      intro r hr r' hr' hin
      rw [List.mem_singleton] at hr'
      subst hr'
      exact mailbox_notIn hs r hr ⟨hin.1.symm, hin.2.symm⟩
    · obtain ⟨row, hrow, hlt⟩ := h.bound r hr
      refine ⟨row, ?_, hlt⟩
      rw [selectMailbox_addMailbox hs]
      split
      · rename_i hk
        rw [hk.1, hk.2, hs] at hrow
        cases hrow
      · exact hrow

/-! ## Allocation -/

/-- The keys that get a UID: those not live yet, each at its first occurrence. -/
def freshKeys : List (String × String) → List String → List (String × String)
  | [], _ => []
  | key :: keys, seen =>
    if key.1 ∈ seen then freshKeys keys seen else key :: freshKeys keys (seen ++ [key.1])

/-- The rows made for `keys`, with UIDs from `next` on. -/
def newRows (inboxId name now : String) (keys : List (String × String)) (next : Nat) :
    List UidRow :=
  (keys.zipIdx next).map fun (key, uid) => ⟨inboxId, name, uid, key.1, key.2, now, none⟩

theorem freshKeys_notMem (keys : List (String × String)) (seen : List String) :
    ∀ key ∈ freshKeys keys seen, key.1 ∉ seen := by
  induction keys generalizing seen with
  | nil => intro key hkey; cases hkey
  | cons k keys ih =>
    intro key hkey
    simp only [freshKeys] at hkey
    split at hkey
    · exact ih seen key hkey
    · rename_i hk
      cases List.mem_cons.mp hkey with
      | inl h => exact h ▸ hk
      | inr h => exact fun hmem => ih _ key h (List.mem_append_left _ hmem)

theorem freshKeys_nodup (keys : List (String × String)) (seen : List String) :
    ((freshKeys keys seen).map (·.1)).Nodup := by
  induction keys generalizing seen with
  | nil => exact List.nodup_nil
  | cons k keys ih =>
    simp only [freshKeys]
    split
    · exact ih seen
    · refine List.nodup_cons.mpr ⟨fun hmem => ?_, ih _⟩
      obtain ⟨key, hkey, heq⟩ := List.mem_map.mp hmem
      exact freshKeys_notMem keys _ key hkey (List.mem_append_right _ (by simp [heq]))

theorem mem_freshKeys (keys : List (String × String)) (seen : List String) (k : String) :
    k ∈ (freshKeys keys seen).map (·.1) ↔ k ∈ keys.map (·.1) ∧ k ∉ seen := by
  induction keys generalizing seen with
  | nil => simp [freshKeys]
  | cons key keys ih =>
    simp only [freshKeys]
    split
    · rename_i h
      rw [ih, List.map_cons, List.mem_cons]
      constructor
      · exact fun ⟨hk, hn⟩ => ⟨.inr hk, hn⟩
      · rintro ⟨rfl | hk, hn⟩
        · exact absurd h hn
        · exact ⟨hk, hn⟩
    · rename_i h
      rw [List.map_cons, List.mem_cons, ih, List.map_cons, List.mem_cons, List.mem_append,
        List.mem_singleton]
      constructor
      · rintro (rfl | ⟨hk, hn⟩)
        · exact ⟨.inl rfl, h⟩
        · exact ⟨.inr hk, fun hs => hn (.inl hs)⟩
      · rintro ⟨rfl | hk, hn⟩
        · exact .inl rfl
        · by_cases he : k = key.1
          · exact .inl he
          · exact .inr ⟨hk, fun hs => hs.elim hn he⟩

/-- The loop of `ensure_uids` adds the new rows and numbers them from `next`. -/
theorem allocate_eq (now : String) (keys : List (String × String)) (live : List (String × Nat))
    (next : Nat) :
    d.allocate inboxId name now keys live next =
      ({ d with uidMap :=
          d.uidMap ++ newRows inboxId name now (freshKeys keys (live.map (·.1))) next },
        live ++ ((freshKeys keys (live.map (·.1))).zipIdx next).map fun x => (x.1.1, x.2),
        next + (freshKeys keys (live.map (·.1))).length) := by
  induction keys generalizing d live next with
  | nil => simp [Db.allocate, freshKeys, newRows]
  | cons key keys ih =>
    obtain ⟨remoteKey, remoteId⟩ := key
    have hnamed : (live.lookup remoteKey).isSome = true ↔ remoteKey ∈ live.map (·.1) := by
      simp only [List.lookup_isSome_iff, beq_iff_eq, List.mem_map, @eq_comm _ remoteKey]
    simp only [Db.allocate, freshKeys, hnamed]
    split
    · exact ih live next
    · rw [ih]
      simp [addUid, newRows, List.zipIdx_cons, Nat.add_assoc, Nat.add_comm]

theorem liveMap_append_newRows (d : Db) (inboxId name now : String)
    (keys : List (String × String)) (next : Nat) :
    ({ d with uidMap := d.uidMap ++ newRows inboxId name now keys next } : Db).liveMap inboxId name =
      d.liveMap inboxId name ++ (keys.zipIdx next).map fun x => (x.1.1, x.2) := by
  have hall : ∀ r ∈ newRows inboxId name now keys next,
      (decide (r.In inboxId name) && r.live) = true := by
    intro r hr
    obtain ⟨x, _, rfl⟩ := List.mem_map.mp hr
    simp [UidRow.In, UidRow.live]
  simp only [liveMap, List.filter_append, List.map_append, List.filter_eq_self.mpr hall]
  simp [newRows]

/-- The keys an `ensure_uids` call allocates for. -/
def unseen (d : Db) (inboxId name : String) (keys : List (String × String)) :
    List (String × String) :=
  freshKeys keys ((d.liveMap inboxId name).map (·.1))

/-- What `ensure_uids` leaves: the new rows in the order of the keys, the counter
behind them, and everything else as it was. -/
structure Ensured (d : Db) (inboxId name now : String) (keys : List (String × String))
    (d' : Db) (live : List (String × Nat)) : Prop where
  uidMap : d'.uidMap = d.uidMap ++
    newRows inboxId name now (d.unseen inboxId name keys) (d.nextUid inboxId name)
  deletedMark : d'.deletedMark = d.deletedMark
  row : ∃ v, d'.selectMailbox inboxId name =
      some (v, d.nextUid inboxId name + (d.unseen inboxId name keys).length) ∧
    ∀ row, d.selectMailbox inboxId name = some row → row.1 = v
  others : ∀ i n, ¬(i = inboxId ∧ n = name) → d'.selectMailbox i n = d.selectMailbox i n
  live : live = d'.liveMap inboxId name

theorem liveMap_congr {d' : Db} (h : d'.uidMap = d.uidMap) (i n : String) :
    d'.liveMap i n = d.liveMap i n := by rw [liveMap, h, liveMap]

theorem ensureUids_ensured (v : Nat) (now inboxId name : String) (keys : List (String × String)) :
    Ensured d inboxId name now keys (d.ensureUids v now inboxId name keys).1
      (d.ensureUids v now inboxId name keys).2 := by
  obtain ⟨huid, hmark, hsel, hnext, hothers, hrow⟩ :=
    ensureMailbox_spec d v inboxId name
  have hlive : (d.ensureMailbox v inboxId name).1.liveMap inboxId name = d.liveMap inboxId name :=
    liveMap_congr huid inboxId name
  have hun : freshKeys keys ((d.liveMap inboxId name).map (·.1)) = d.unseen inboxId name keys := rfl
  simp only [Db.ensureUids, allocate_eq, hlive, hnext, hun]
  generalize hd₁ : (d.ensureMailbox v inboxId name).1 = d₁ at *
  generalize hr : (d.ensureMailbox v inboxId name).2 = r at *
  have hbase := liveMap_append_newRows d₁ inboxId name now (d.unseen inboxId name keys)
    (d.nextUid inboxId name)
  rw [hlive] at hbase
  split
  · rename_i hne
    refine ⟨by simp [setNextUid, huid], hmark, ⟨r.1, ?_, fun row h => by rw [hrow row h]⟩, ?_,
      hbase.symm⟩
    · rw [selectMailbox_setNextUid]
      simp only [and_self, if_true]
      exact congrArg (Option.map _) hsel
    · intro i n hk
      rw [selectMailbox_setNextUid, if_neg hk]
      exact hothers i n hk
  · rename_i heq
    have hlen : (d.unseen inboxId name keys).length = 0 := by omega
    refine ⟨by rw [huid], hmark, ⟨r.1, ?_, fun row h => by rw [hrow row h]⟩, hothers, hbase.symm⟩
    rw [hlen]
    exact hsel.trans (by rw [← hnext]; rfl)

theorem mem_newRows {now : String} {keys : List (String × String)} {next : Nat} {r : UidRow}
    (h : r ∈ newRows inboxId name now keys next) :
    r.In inboxId name ∧ r.live = true ∧ (r.remoteKey, r.remoteId) ∈ keys ∧
      next ≤ r.uid ∧ r.uid < next + keys.length := by
  obtain ⟨x, hx, rfl⟩ := List.mem_map.mp h
  refine ⟨⟨rfl, rfl⟩, rfl, List.fst_mem_of_mem_zipIdx hx, List.le_snd_of_mem_zipIdx hx, ?_⟩
  have := List.snd_lt_of_mem_zipIdx hx
  show x.2 < next + keys.length
  omega

theorem newRows_ascending (now : String) (keys : List (String × String)) (next : Nat) :
    (newRows inboxId name now keys next).Pairwise fun r r' => r.uid < r'.uid := by
  rw [newRows, List.pairwise_map]
  induction keys generalizing next with
  | nil => exact List.Pairwise.nil
  | cons key keys ih =>
    rw [List.zipIdx_cons]
    refine List.Pairwise.cons (fun x hx => ?_) (ih (next + 1))
    have := List.le_snd_of_mem_zipIdx hx
    show next < x.2
    omega

theorem newRows_keys (now : String) (keys : List (String × String)) (next : Nat)
    (h : (keys.map (·.1)).Nodup) :
    (newRows inboxId name now keys next).Pairwise fun r r' => r.remoteKey ≠ r'.remoteKey := by
  rw [newRows, List.pairwise_map]
  rw [← List.zipIdx_map_fst next keys, List.map_map, List.Nodup, List.pairwise_map] at h
  exact h

theorem nextUid_eq {v next : Nat} (h : d.selectMailbox inboxId name = some (v, next)) :
    d.nextUid inboxId name = next := by simp [nextUid, h]

theorem Ok.lt_nextUid (h : d.Ok) {r : UidRow} (hr : r ∈ d.uidMap) (hin : r.In inboxId name) :
    r.uid < d.nextUid inboxId name := by
  obtain ⟨row, hrow, hlt⟩ := h.bound r hr
  rw [hin.1, hin.2] at hrow
  rw [nextUid_eq hrow]
  exact hlt

theorem mem_liveMap {k : String} {u : Nat} : (k, u) ∈ d.liveMap inboxId name ↔
    ∃ r ∈ d.uidMap, r.In inboxId name ∧ r.live = true ∧ r.remoteKey = k ∧ r.uid = u := by
  simp only [liveMap, List.mem_map, List.mem_filter, Bool.and_eq_true, decide_eq_true_eq,
    Prod.mk.injEq]
  constructor
  · rintro ⟨r, ⟨hr, hin, hl⟩, hk, hu⟩
    exact ⟨r, hr, hin, hl, hk, hu⟩
  · rintro ⟨r, hr, hin, hl, hk, hu⟩
    exact ⟨r, ⟨hr, hin, hl⟩, hk, hu⟩

theorem Ok.of_ensured (h : d.Ok) {now : String} {keys : List (String × String)} {d' : Db}
    {live : List (String × Nat)} (hm : d'.mailbox.Pairwise fun r r' => ¬r'.In r.inboxId r.name)
    (he : Ensured d inboxId name now keys d' live) : d'.Ok := by
  obtain ⟨v, hrow, hv⟩ := he.row
  refine ⟨hm, ?_, ?_, ?_⟩
  · rw [he.uidMap]
    refine List.pairwise_append.mpr ⟨h.ascending, ?_, fun r hr r' hr' hin => ?_⟩
    · refine (newRows_ascending _ _ _).imp ?_
      intro r r' hlt _
      exact hlt
    · obtain ⟨hin', _, _, hle, _⟩ := mem_newRows hr'
      have : r.In inboxId name := ⟨hin.1.symm.trans hin'.1, hin.2.symm.trans hin'.2⟩
      exact Nat.lt_of_lt_of_le (h.lt_nextUid hr this) hle
  · rw [he.uidMap]
    refine List.pairwise_append.mpr ⟨h.liveKeys, ?_, fun r hr r' hr' hin hl _ heq => ?_⟩
    · refine (newRows_keys _ _ _ (freshKeys_nodup _ _)).imp ?_
      intro r r' hne _ _ _
      exact hne
    · obtain ⟨hin', _, hmem, _, _⟩ := mem_newRows hr'
      have hin₀ : r.In inboxId name := ⟨hin.1.symm.trans hin'.1, hin.2.symm.trans hin'.2⟩
      refine freshKeys_notMem _ _ _ hmem (List.mem_map.mpr ⟨(r.remoteKey, r.uid), ?_, heq⟩)
      exact mem_liveMap.mpr ⟨r, hr, hin₀, hl, rfl, rfl⟩
  · rw [he.uidMap]
    intro r hr
    by_cases hk : r.inboxId = inboxId ∧ r.name = name
    · rw [hk.1, hk.2]
      refine ⟨_, hrow, ?_⟩
      cases List.mem_append.mp hr with
      | inl hr => exact Nat.lt_of_lt_of_le (h.lt_nextUid hr hk) (Nat.le_add_right _ _)
      | inr hr => exact (mem_newRows hr).2.2.2.2
    · cases List.mem_append.mp hr with
      | inl hr =>
        rw [he.others _ _ hk]
        exact h.bound r hr
      | inr hr => exact absurd (mem_newRows hr).1 hk

theorem setNextUid_mailboxes (h : d.mailbox.Pairwise fun r r' => ¬r'.In r.inboxId r.name) (u : Nat) :
    (d.setNextUid inboxId name u).mailbox.Pairwise fun r r' => ¬r'.In r.inboxId r.name := by
  refine List.pairwise_map.mpr (h.imp ?_)
  intro r r' hne
  split <;> split <;> exact hne

theorem Ok.ensureUids (h : d.Ok) (v : Nat) (now inboxId name : String)
    (keys : List (String × String)) : (d.ensureUids v now inboxId name keys).1.Ok := by
  refine h.of_ensured ?_ (ensureUids_ensured v now inboxId name keys)
  have hm := (h.ensureMailbox v inboxId name).mailboxes
  simp only [Db.ensureUids, allocate_eq]
  split
  · exact setNextUid_mailboxes hm _
  · exact hm

/-! ## Tombstones and marks -/

theorem foldl_vanish (now : String) (uids : List Nat) :
    uids.foldl (fun d uid => d.vanish inboxId name uid now) d =
      { d with uidMap := d.uidMap.map fun r =>
          if r.In inboxId name ∧ r.uid ∈ uids then { r with vanishedAt := some now } else r } := by
  induction uids generalizing d with
  | nil => simp
  | cons u uids ih =>
    rw [List.foldl_cons, ih]
    simp only [vanish, List.map_map, Db.mk.injEq, true_and, and_true]
    refine List.map_congr_left fun r _ => ?_
    simp only [Function.comp, List.mem_cons]
    by_cases hu : r.In inboxId name ∧ r.uid = u
    · simp [hu.1, hu.2]
    · rw [if_neg hu]
      by_cases hin : r.In inboxId name
      · have hne : r.uid ≠ u := fun e => hu ⟨hin, e⟩
        simp [hin, hne]
      · simp [hin]

theorem foldl_deleteMark (uids : List Nat) :
    uids.foldl (fun d uid => d.deleteMark inboxId name uid) d =
      { d with deletedMark :=
          d.deletedMark.filter fun r => decide ¬(r.In inboxId name ∧ r.uid ∈ uids) } := by
  induction uids generalizing d with
  | nil => simp
  | cons u uids ih =>
    rw [List.foldl_cons, ih]
    simp only [deleteMark, List.filter_filter, Db.mk.injEq, true_and]
    refine List.filter_congr fun r _ => ?_
    by_cases hin : r.In inboxId name
    · simp [hin, not_or, Bool.and_comm]
    · simp [hin]

theorem mem_gone {present : List String} {live : List (String × Nat)} {u : Nat} :
    u ∈ gone present live ↔ ∃ k, (k, u) ∈ live ∧ k ∉ present := by
  simp only [gone, List.mem_insertionSort, List.mem_map, List.mem_filter, decide_eq_true_eq]
  constructor
  · rintro ⟨x, ⟨hx, hk⟩, rfl⟩
    exact ⟨x.1, hx, hk⟩
  · rintro ⟨k, hx, hk⟩
    exact ⟨(k, u), ⟨hx, hk⟩, rfl⟩

/-- Two members of a pairwise related list are the same or related one way. -/
theorem eq_or_rel {α : Type} {R : α → α → Prop} {l : List α} (h : l.Pairwise R) {a b : α}
    (ha : a ∈ l) (hb : b ∈ l) : a = b ∨ R a b ∨ R b a := by
  induction h with
  | nil => cases ha
  | cons hx _ ih =>
    cases List.mem_cons.mp ha with
    | inl ha => cases List.mem_cons.mp hb with
      | inl hb => exact .inl (ha.trans hb.symm)
      | inr hb => exact .inr (.inl (ha ▸ hx b hb))
    | inr ha => cases List.mem_cons.mp hb with
      | inl hb => exact .inr (.inr (hb ▸ hx a ha))
      | inr hb => exact ih ha hb

theorem Ok.eq_of_uid (h : d.Ok) {r r' : UidRow} (hr : r ∈ d.uidMap) (hr' : r' ∈ d.uidMap)
    (hin : r.In inboxId name) (hin' : r'.In inboxId name) (hu : r.uid = r'.uid) : r = r' := by
  have h₁ : r'.In r.inboxId r.name := ⟨hin'.1.trans hin.1.symm, hin'.2.trans hin.2.symm⟩
  have h₂ : r.In r'.inboxId r'.name := ⟨hin.1.trans hin'.1.symm, hin.2.trans hin'.2.symm⟩
  rcases eq_or_rel h.ascending hr hr' with he | hlt | hlt
  · exact he
  · have := hlt h₁; omega
  · have := hlt h₂; omega

theorem Ok.eq_of_key (h : d.Ok) {r r' : UidRow} (hr : r ∈ d.uidMap) (hr' : r' ∈ d.uidMap)
    (hin : r.In inboxId name) (hin' : r'.In inboxId name) (hl : r.live = true)
    (hl' : r'.live = true) (hk : r.remoteKey = r'.remoteKey) : r = r' := by
  have h₁ : r'.In r.inboxId r.name := ⟨hin'.1.trans hin.1.symm, hin'.2.trans hin.2.symm⟩
  have h₂ : r.In r'.inboxId r'.name := ⟨hin.1.trans hin'.1.symm, hin.2.trans hin'.2.symm⟩
  rcases eq_or_rel h.liveKeys hr hr' with he | hne | hne
  · exact he
  · exact absurd hk (hne h₁ hl hl')
  · exact absurd hk.symm (hne h₂ hl' hl)

/-- A key's live UID is the UID of its one live row. -/
theorem Ok.liveUid_eq_some (h : d.Ok) {k : String} {u : Nat} :
    d.liveUid inboxId name k = some u ↔ (k, u) ∈ d.liveMap inboxId name := by
  rw [liveUid, List.lookup_eq_some_iff]
  constructor
  · rintro ⟨l₁, l₂, hl, _⟩
    rw [hl]
    exact List.mem_append_right _ List.mem_cons_self
  · intro hmem
    obtain ⟨l₁, l₂, hl⟩ := List.append_of_mem hmem
    refine ⟨l₁, l₂, hl, fun p hp => ?_⟩
    have hkeys : (d.liveMap inboxId name).Pairwise fun x y => x.1 ≠ y.1 := by
      refine List.pairwise_map.mpr (List.Pairwise.imp_of_mem ?_ (h.liveKeys.filter _))
      intro r r' hr hr' hne
      simp only [List.mem_filter, Bool.and_eq_true, decide_eq_true_eq] at hr hr'
      exact hne ⟨hr'.2.1.1.trans hr.2.1.1.symm, hr'.2.1.2.trans hr.2.1.2.symm⟩ hr.2.2 hr'.2.2
    rw [hl] at hkeys
    have hne := (List.pairwise_append.mp hkeys).2.2 p hp (k, u) List.mem_cons_self
    simpa using fun e : k = p.1 => hne e.symm

/-- After `ensure_uids` every given key is live. -/
theorem Ensured.isSome {now : String} {keys : List (String × String)} {d' : Db}
    {live : List (String × Nat)} (h : d'.Ok) (he : Ensured d inboxId name now keys d' live)
    {key : String × String} (hkey : key ∈ keys) :
    ∃ u, d'.liveUid inboxId name key.1 = some u := by
  by_cases hlive : key.1 ∈ (d.liveMap inboxId name).map (·.1)
  · obtain ⟨x, hx, hk⟩ := List.mem_map.mp hlive
    obtain ⟨r, hr, hin, hl, hrk, _⟩ := mem_liveMap.mp (show (x.1, x.2) ∈ _ from hx)
    refine ⟨r.uid, h.liveUid_eq_some.mpr (mem_liveMap.mpr ⟨r, ?_, hin, hl, hrk.trans hk, rfl⟩)⟩
    rw [he.uidMap]
    exact List.mem_append_left _ hr
  · have hfresh : key.1 ∈ (d.unseen inboxId name keys).map (·.1) :=
      (mem_freshKeys _ _ _).mpr ⟨List.mem_map_of_mem hkey, hlive⟩
    obtain ⟨x, hx, hk⟩ := List.mem_map.mp hfresh
    rw [← List.zipIdx_map_fst (d.nextUid inboxId name) (d.unseen inboxId name keys)] at hx
    obtain ⟨y, hy, hyx⟩ := List.mem_map.mp hx
    refine ⟨y.2, h.liveUid_eq_some.mpr (mem_liveMap.mpr
      ⟨⟨inboxId, name, y.2, y.1.1, y.1.2, now, none⟩, ?_, ⟨rfl, rfl⟩, rfl, ?_, rfl⟩)⟩
    · rw [he.uidMap]
      exact List.mem_append_right _ (List.mem_map.mpr ⟨y, hy, rfl⟩)
    · rw [hyx]; exact hk

/-- The rows a tombstone step touches: live, in the mailbox, their key not present. -/
def Gone (inboxId name : String) (present : List String) (r : UidRow) : Prop :=
  r.In inboxId name ∧ r.live = true ∧ r.remoteKey ∉ present

instance (inboxId name : String) (present : List String) (r : UidRow) :
    Decidable (Gone inboxId name present r) := inferInstanceAs (Decidable (_ ∧ _))

theorem Ok.mem_gone_iff (h : d.Ok) {present : List String} {r : UidRow} (hr : r ∈ d.uidMap)
    (hin : r.In inboxId name) :
    r.uid ∈ gone present (d.liveMap inboxId name) ↔ Gone inboxId name present r := by
  rw [mem_gone]
  constructor
  · rintro ⟨k, hk, hp⟩
    obtain ⟨r', hr', hin', hl', rfl, hu⟩ := mem_liveMap.mp hk
    obtain rfl := h.eq_of_uid hr' hr hin' hin hu
    exact ⟨hin, hl', hp⟩
  · rintro ⟨_, hl, hp⟩
    exact ⟨r.remoteKey, mem_liveMap.mpr ⟨r, hr, hin, hl, rfl, rfl⟩, hp⟩

/-- A tombstone step marks exactly the rows that are gone and drops their marks. -/
theorem Ok.tombstoneMissing_eq (h : d.Ok) (now inboxId name : String) (present : List String) :
    d.tombstoneMissing now inboxId name present =
      { d with
        uidMap := d.uidMap.map fun r =>
          if Gone inboxId name present r then { r with vanishedAt := some now } else r,
        deletedMark := d.deletedMark.filter fun r =>
          decide ¬(r.In inboxId name ∧ r.uid ∈ gone present (d.liveMap inboxId name)) } := by
  rw [Db.tombstoneMissing, tombstone, foldl_vanish, foldl_deleteMark]
  simp only [Db.mk.injEq, true_and, and_true]
  refine List.map_congr_left fun r hr => ?_
  by_cases hin : r.In inboxId name
  · simp only [hin, true_and, h.mem_gone_iff hr hin]
  · have : ¬Gone inboxId name present r := fun hg => hin hg.1
    simp [hin, this]

theorem Ok.tombstoneMissing (h : d.Ok) (now inboxId name : String) (present : List String) :
    (d.tombstoneMissing now inboxId name present).Ok := by
  rw [h.tombstoneMissing_eq]
  let f : UidRow → UidRow := fun r =>
    if Gone inboxId name present r then { r with vanishedAt := some now } else r
  have hf : ∀ r, (f r).inboxId = r.inboxId ∧ (f r).name = r.name ∧ (f r).uid = r.uid ∧
      (f r).remoteKey = r.remoteKey ∧ ((f r).live = true → r.live = true) := by
    intro r
    simp only [f]
    split
    · exact ⟨rfl, rfl, rfl, rfl, fun hl => by cases hl⟩
    · exact ⟨rfl, rfl, rfl, rfl, id⟩
  have hin : ∀ r r', (f r').In (f r).inboxId (f r).name → r'.In r.inboxId r.name := by
    intro r r' h
    rw [(hf r).1, (hf r).2.1] at h
    exact ⟨(hf r').1 ▸ h.1, (hf r').2.1 ▸ h.2⟩
  refine ⟨h.mailboxes, ?_, ?_, ?_⟩
  · refine List.pairwise_map.mpr (h.ascending.imp ?_)
    intro r r' hlt hr
    show (f r).uid < (f r').uid
    rw [(hf r).2.2.1, (hf r').2.2.1]
    exact hlt (hin r r' hr)
  · refine List.pairwise_map.mpr (h.liveKeys.imp ?_)
    intro r r' hne hr hl hl'
    show (f r).remoteKey ≠ (f r').remoteKey
    rw [(hf r).2.2.2.1, (hf r').2.2.2.1]
    exact hne (hin r r' hr) ((hf r).2.2.2.2 hl) ((hf r').2.2.2.2 hl')
  · intro r hr
    obtain ⟨r₀, hr₀, rfl⟩ := List.mem_map.mp hr
    show ∃ row, d.selectMailbox (f r₀).inboxId (f r₀).name = some row ∧ (f r₀).uid < row.2
    rw [(hf r₀).1, (hf r₀).2.1, (hf r₀).2.2.1]
    exact h.bound r₀ hr₀

/-- Marks do not touch the mailboxes or the UIDs. -/
theorem setDeleted_tables (d : Db) (now inboxId name : String) (uids : List Nat) (value : Bool) :
    (d.setDeleted now inboxId name uids value).mailbox = d.mailbox ∧
    (d.setDeleted now inboxId name uids value).uidMap = d.uidMap := by
  have hins : ∀ d : Db, (uids.foldl (fun d uid => d.insertMark ⟨inboxId, name, uid, now⟩) d).mailbox =
      d.mailbox ∧ (uids.foldl (fun d uid => d.insertMark ⟨inboxId, name, uid, now⟩) d).uidMap =
      d.uidMap := by
    induction uids with
    | nil => exact fun d => ⟨rfl, rfl⟩
    | cons u uids ih =>
      intro d
      rw [List.foldl_cons]
      refine ⟨(ih _).1.trans ?_, (ih _).2.trans ?_⟩ <;> simp only [insertMark] <;> split <;> rfl
  cases value with
  | true => exact hins d
  | false => simp only [Db.setDeleted, foldl_deleteMark, Bool.false_eq_true, if_false, and_self]

theorem Ok.of_tables {d' : Db} (h : d.Ok) (hm : d'.mailbox = d.mailbox)
    (hu : d'.uidMap = d.uidMap) : d'.Ok := by
  refine ⟨hm ▸ h.mailboxes, hu ▸ h.ascending, hu ▸ h.liveKeys, ?_⟩
  rw [hu]
  intro r hr
  obtain ⟨row, hrow, hlt⟩ := h.bound r hr
  exact ⟨row, by rw [selectMailbox, hm]; exact hrow, hlt⟩

end Db
end Store
end ImapGateway
