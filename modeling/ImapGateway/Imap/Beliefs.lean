/-
What the client of a session believes of the flags.

A client knows the flags that the last response about a message told, and works out for itself
what its own silent STORE left.  The session keeps the flags it recorded last, and at a safe
point announces those that differ from what is there.  So nothing is lost as long as what is
recorded is what the client believes.
-/
import ImapGateway.Imap.Session

namespace ImapGateway
namespace Imap

open Async Mailbox

/-! ## Beliefs -/

/-- The flags that the parts of a FETCH response tell; the last ones count. -/
def partFlags : List Part → Option Flags
  | [] => none
  | .flags f :: parts => some ((partFlags parts).getD f)
  | _ :: parts => partFlags parts

theorem partFlags_append (parts parts' : List Part) :
    partFlags (parts ++ parts') = (partFlags parts').or (partFlags parts) := by
  induction parts with
  | nil => simp [partFlags]
  | cons p parts ih =>
    cases p with
    | flags f => cases h : partFlags parts' <;> simp [partFlags, ih, h]
    | _ => simp [partFlags, ih]

/-- What the client believes after a note, `b` being what it believed of the UID before. -/
def Note.believed (uid : Nat) (b : Option Flags) : Note → Option Flags
  | .sent (.fetch _ n parts) _ => if n = uid then (partFlags parts).or b else b
  | .sent (.expunge seq) uids => if uids[seq - 1]? = some uid then none else b
  | .sent _ _ => b
  | .deselected => none
  | .viewed _ _ => none
  | .recorded _ _ => b
  | .stored uids mode permanent flags =>
    if uid ∈ uids then b.map (mode.wanted permanent flags) else b
  | .dropped _ _ => b

/-- The flags the client believes a message of its mailbox to have. -/
def belief (uid : Nat) : List Note → Option Flags
  | [] => none
  | n :: log => n.believed uid (belief uid log)

/-- Whether flags are left untold by a note, `b` being whether they were before. -/
def Note.untold (uid : Nat) (b : Bool) : Note → Bool
  | .sent (.fetch _ n parts) _ => b && !(decide (n = uid) && (partFlags parts).isSome)
  | .sent _ _ => b
  | .deselected => false
  | .viewed _ _ => false
  | .recorded n _ => b || decide (n = uid)
  | .stored uids _ _ _ => b && decide (uid ∉ uids)
  | .dropped _ _ => b

/-- Flags of the message were recorded that no response has told since. -/
def untold (uid : Nat) : List Note → Bool
  | [] => false
  | n :: log => n.untold uid (untold uid log)

/-- What was recorded of a message is what the client believes, if it believes anything and was
told what was recorded. -/
def Squares (uid : Nat) (log : List Note) (seen : Option Flags) : Prop :=
  untold uid log = false → ∀ b, belief uid log = some b → seen = some b

theorem Squares.of_none {uid : Nat} {log : List Note} {seen : Option Flags}
    (h : belief uid log = none) : Squares uid log seen := by
  intro _ b hb
  rw [h] at hb
  cases hb

theorem Squares.of_some {uid : Nat} {log : List Note} {f : Flags} (h : belief uid log = some f) :
    Squares uid log (some f) := by
  intro _ b hb
  rw [← hb, h]

/-- A note that tells nothing of the message. -/
theorem Squares.skip {uid : Nat} {log : List Note} {seen : Option Flags} {n : Note}
    (h : Squares uid log seen) (hb : n.believed uid (belief uid log) = belief uid log)
    (hu : n.untold uid (untold uid log) = untold uid log) : Squares uid (n :: log) seen := by
  intro huntold b hbelief
  exact h (hu ▸ huntold) b (hb ▸ hbelief)

/-- The flags were recorded before they were told. -/
theorem Squares.fetch {uid n seq : Nat} {log : List Note} {seen : Option Flags} {parts : List Part}
    {uids : List Nat} (h : Squares uid log seen)
    (htold : n = uid → ∀ f, partFlags parts = some f → seen = some f) :
    Squares uid (.sent (.fetch seq n parts) uids :: log) seen := by
  by_cases hn : n = uid
  · cases hparts : partFlags parts with
    | none =>
      apply h.skip
      · simp [Note.believed, hparts]
      · simp [Note.untold, hparts]
    | some f =>
      rw [htold hn f hparts]
      apply Squares.of_some
      simp [belief, Note.believed, hn, hparts]
  · apply h.skip
    · simp [Note.believed, hn]
    · simp [Note.untold, hn]

theorem Squares.recorded {uid n : Nat} {log : List Note} {seen : Option Flags} {f : Flags}
    (h : n ≠ uid → Squares uid log seen) : Squares uid (.recorded n f :: log) seen := by
  by_cases hn : n = uid
  · intro huntold
    simp [untold, Note.untold, hn] at huntold
  · apply (h hn).skip rfl
    simp [Note.untold, hn]

/-- What a silent STORE left is what the client works out. -/
theorem Squares.stored {uid : Nat} {log : List Note} {seen : Option Flags} {uids : List Nat}
    {mode : StoreMode} {permanent flags : List Flag} (h : Squares uid log seen)
    (hout : uid ∈ uids → ∀ b, belief uid log = some b → seen = some (mode.wanted permanent flags b)) :
    Squares uid (.stored uids mode permanent flags :: log) seen := by
  by_cases huid : uid ∈ uids
  · intro _ b hb
    simp only [belief, Note.believed, if_pos huid, Option.map_eq_some_iff] at hb
    obtain ⟨b', hb', rfl⟩ := hb
    exact hout huid b' hb'
  · apply h.skip
    · simp [Note.believed, huid]
    · simp [Note.untold, huid]

/-! ## The session -/

/-- What the session recorded is what its client believes. -/
def Session.Informed (l : Session) : Prop :=
  ∀ sel, l.selected = some sel → ∀ uid, Squares uid l.log (sel.flagsSeen uid)

/-- The flags that the action tells were recorded. -/
def Act.Recorded (l : Session) : Act → Prop
  | .send (.fetch _ uid parts) => ∀ sel, l.selected = some sel →
    ∀ f, partFlags parts = some f → sel.flagsSeen uid = some f
  | _ => True

/-- What the action leaves after a silent STORE is what the client works out. -/
def Act.WorkedOut (l : Session) : Act → Prop
  | .noteStored uids mode permanent flags => ∀ sel, l.selected = some sel → ∀ uid ∈ uids,
    ∀ b, belief uid l.log = some b → sel.flagsSeen uid = some (mode.wanted permanent flags b)
  | _ => True

/-- Of each message in the view the client believes what the latest snapshot and the marks have,
unless it was never told what was recorded last. -/
def Session.Current (s : Service) (l : Session) : Prop :=
  ∀ sel latest, l.selected = some sel → l.latest s sel = some latest → ∀ uid ∈ sel.uids,
    ∀ item, latest.byUid uid = some item → untold uid l.log = false →
      ∀ b, belief uid l.log = some b → b = flagsOf item (l.deletedUids s sel.name)

namespace Session

variable {l : Session} {s : Service}

theorem Informed.of_eq {l' : Session} (h : l.Informed) (hsel : l'.selected = l.selected)
    (hlog : l'.log = l.log) : l'.Informed := by
  intro sel hsel' uid
  rw [hlog]
  exact h sel (hsel ▸ hsel') uid

/-- A response is written whose flags were recorded. -/
theorem Informed.send (h : l.Informed) {r : Response} (hr : (Act.send r).Recorded l) :
    (l.write r).Informed := by
  intro sel hsel uid
  have hold : Squares uid l.log (sel.flagsSeen uid) := h sel hsel uid
  cases r with
  | fetch seq n parts =>
    apply hold.fetch
    intro hn f hf
    rw [← hn]
    exact hr sel hsel f hf
  | expunge seq =>
    by_cases huid : l.uids[seq - 1]? = some uid
    · apply Squares.of_none
      simp [belief, write, Note.believed, huid]
    · apply hold.skip
      · simp [Note.believed, huid]
      · rfl
  | _ => exact hold.skip rfl rfl

theorem Informed.setSelected {sel sel' : Selected} (h : l.Informed) (hsel : l.selected = some sel)
    (hseen : sel'.flagsSeen = sel.flagsSeen) : (l.setSelected sel').Informed := by
  intro sel'' hsel'' uid
  cases hsel''
  rw [hseen]
  exact h sel hsel uid

/-! ### `flush_pending` -/

/-- A vanished message is announced, and the client forgets it. -/
theorem Informed.vanish {sel : Selected} (h : l.Informed) (hsel : l.selected = some sel)
    {n uid : Nat} (huid : sel.uids[n]? = some uid) :
    ((l.write (.expunge (n + 1))).setSelected
      { sel with
        uids := sel.uids.eraseIdx n,
        flagsSeen := Function.update sel.flagsSeen uid none }).Informed := by
  have huids : l.uids = sel.uids := by
    simp [Session.uids, hsel]
  intro sel' hsel' x
  cases hsel'
  have hold : Squares x l.log (sel.flagsSeen x) := h sel hsel x
  by_cases hx : x = uid
  · apply Squares.of_none
    simp [belief, Session.setSelected, write, Note.believed, huids, huid, hx]
  · have hseen : Function.update sel.flagsSeen uid none x = sel.flagsSeen x :=
      Function.update_of_ne hx _ _
    show Squares x (.sent (.expunge (n + 1)) l.uids :: l.log)
      (Function.update sel.flagsSeen uid none x)
    rw [hseen]
    apply hold.skip
    · have hne : uid ≠ x := fun heq => hx heq.symm
      simp [Note.believed, huids, huid, hne]
    · rfl

/-- The flags of a message are announced if they differ from those recorded. -/
theorem Informed.refresh {sel : Selected} (h : l.Informed) (hsel : l.selected = some sel)
    {seq uid : Nat} {flags : Flags} :
    ((match sel.flagsSeen uid with
      | some previous =>
        if previous ≠ flags then l.write (.fetch seq uid [.uid uid, .flags flags]) else l
      | none => l).setSelected
        { sel with flagsSeen := Function.update sel.flagsSeen uid (some flags) }).Informed := by
  intro sel' hsel' x
  cases hsel'
  have hold : Squares x l.log (sel.flagsSeen x) := h sel hsel x
  by_cases hx : x = uid
  · subst hx
    show Squares x _ (Function.update sel.flagsSeen x (some flags) x)
    rw [Function.update_self]
    cases hprevious : sel.flagsSeen x with
    | none =>
      intro huntold b hb
      have hsome : sel.flagsSeen x = some b := hold huntold b hb
      rw [hprevious] at hsome
      cases hsome
    | some previous =>
      dsimp only
      by_cases hsame : previous = flags
      · rw [if_neg (not_not.mpr hsame), ← hsame, ← hprevious]
        exact hold
      · rw [if_pos hsame]
        apply Squares.of_some
        simp [belief, Session.setSelected, write, Note.believed, partFlags]
  · have hseen : Function.update sel.flagsSeen uid (some flags) x = sel.flagsSeen x :=
      Function.update_of_ne hx _ _
    show Squares x _ (Function.update sel.flagsSeen uid (some flags) x)
    rw [hseen]
    have hfetch : Squares x (.sent (.fetch seq uid [.uid uid, .flags flags]) l.uids :: l.log)
        (sel.flagsSeen x) := hold.fetch fun heq => absurd heq.symm hx
    split
    · split
      · exact hfetch
      · exact hold
    · exact hold

theorem flushVanished_informed (h : l.Informed) (live : List Nat) (n : Nat) :
    (flushVanished live n l).Informed := by
  induction n generalizing l with
  | zero => exact h
  | succ n ih =>
    rw [flushVanished]
    split
    · exact h
    · rename_i sel hsel
      split
      · exact ih h
      · rename_i uid huid
        split
        · exact ih h
        · exact ih (h.vanish hsel huid)

theorem flushArrived_informed (h : l.Informed) (items : List Nat) :
    (flushArrived items l).Informed := by
  rw [flushArrived]
  split
  · exact h
  · rename_i sel hsel
    dsimp only
    split
    · exact h
    · apply Informed.send
      · exact h.setSelected hsel rfl
      · trivial

theorem flushFlags_informed (h : l.Informed) (latest : Snapshot) (deleted : List Nat)
    (pairs : List (Nat × Nat)) : (flushFlags latest deleted pairs l).Informed := by
  induction pairs generalizing l with
  | nil => exact h
  | cons pair pairs ih =>
    obtain ⟨uid, seq⟩ := pair
    rw [flushFlags]
    split
    · rename_i sel item hsel hitem
      exact ih (h.refresh hsel)
    · exact ih h

/-- The mailbox stays open under its name. -/
def Stays (l l' : Session) : Prop :=
  l'.inboxId = l.inboxId ∧ l'.selected.map (·.name) = l.selected.map (·.name)

theorem Stays.trans {l' l'' : Session} (h : l.Stays l') (h' : l'.Stays l'') : l.Stays l'' :=
  ⟨h'.1.trans h.1, h'.2.trans h.2⟩

theorem Stays.latest {l' : Session} (h : l.Stays l') {sel sel' : Selected}
    (hsel : l.selected = some sel) (hsel' : l'.selected = some sel') :
    sel'.name = sel.name ∧ l'.latest s sel' = l.latest s sel := by
  have hname : sel'.name = sel.name := by
    have hmap := h.2
    rw [hsel, hsel'] at hmap
    exact Option.some.inj hmap
  exact ⟨hname, by rw [Session.latest, Session.latest, h.1, hname]⟩

theorem Stays.deletedUids {l' : Session} (h : l.Stays l') (name : String) :
    l'.deletedUids s name = l.deletedUids s name := by
  rw [Session.deletedUids, Session.deletedUids, h.1]

theorem flushVanished_stays (live : List Nat) (n : Nat) : l.Stays (flushVanished live n l) := by
  induction n generalizing l with
  | zero => exact ⟨rfl, rfl⟩
  | succ n ih =>
    rw [flushVanished]
    split
    · exact ⟨rfl, rfl⟩
    · rename_i sel hsel
      split
      · exact ih
      · split
        · exact ih
        · apply Stays.trans _ ih
          exact ⟨rfl, by rw [hsel]; rfl⟩

theorem flushArrived_stays (items : List Nat) : l.Stays (flushArrived items l) := by
  rw [flushArrived]
  split
  · exact ⟨rfl, rfl⟩
  · rename_i sel hsel
    dsimp only
    split
    · exact ⟨rfl, rfl⟩
    · exact ⟨rfl, by rw [hsel]; rfl⟩

/-- What is recorded after the flags were gone through is what is there. -/
theorem flushFlags_seen {sel : Selected} (hsel : l.selected = some sel) (latest : Snapshot)
    (deleted : List Nat) (pairs : List (Nat × Nat)) :
    l.Stays (flushFlags latest deleted pairs l) ∧
      ∃ sel', (flushFlags latest deleted pairs l).selected = some sel' ∧ sel'.uids = sel.uids ∧
        ∀ uid item, latest.byUid uid = some item →
          uid ∈ pairs.map (·.1) ∨ sel.flagsSeen uid = some (flagsOf item deleted) →
            sel'.flagsSeen uid = some (flagsOf item deleted) := by
  induction pairs generalizing l sel with
  | nil =>
    refine ⟨⟨rfl, rfl⟩, sel, hsel, rfl, fun uid item _ h => ?_⟩
    exact h.resolve_left List.not_mem_nil
  | cons pair pairs ih =>
    obtain ⟨uid, seq⟩ := pair
    cases hitem : latest.byUid uid with
    | none =>
      simp only [flushFlags, hsel, hitem]
      obtain ⟨hstays, sel', hsel', huids, hseen⟩ := ih hsel
      refine ⟨hstays, sel', hsel', huids, fun x item hx h => hseen x item hx ?_⟩
      rcases h with h | h
      · rcases List.mem_cons.mp h with heq | h
        · rw [show x = uid from heq, hitem] at hx
          cases hx
        · exact .inl h
      · exact .inr h
    | some item =>
      simp only [flushFlags, hsel, hitem]
      have hselected := ih (l := (match sel.flagsSeen uid with
        | some previous => if previous ≠ flagsOf item deleted then
            l.write (.fetch seq uid [.uid uid, .flags (flagsOf item deleted)]) else l
        | none => l).setSelected { sel with
          flagsSeen := Function.update sel.flagsSeen uid (some (flagsOf item deleted)) }) rfl
      obtain ⟨hstays, sel', hsel', huids, hseen⟩ := hselected
      refine ⟨Stays.trans ?_ hstays, sel', hsel', huids, fun x item' hx h => hseen x item' hx ?_⟩
      · constructor
        · show (match sel.flagsSeen uid with
            | some previous => if previous ≠ flagsOf item deleted then
                l.write (.fetch seq uid [.uid uid, .flags (flagsOf item deleted)]) else l
            | none => l).inboxId = l.inboxId
          split
          · split <;> rfl
          · rfl
        · rw [hsel]
          rfl
      · by_cases hxu : x = uid
        · right
          rw [hxu, hitem] at hx
          cases hx
          rw [hxu]
          exact Function.update_self ..
        · rcases h with h | h
          · exact .inl ((List.mem_cons.mp h).resolve_left hxu)
          · right
            rw [← h]
            exact Function.update_of_ne hxu _ _

theorem Informed.flush (h : l.Informed) (s : Service) :
    (l.flushPending s).Informed ∧ (l.flushPending s).Current s := by
  rw [flushPending]
  cases hsel : l.selected with
  | none =>
    refine ⟨h, fun sel latest hsel' => ?_⟩
    rw [hsel] at hsel'
    cases hsel'
  | some sel =>
    dsimp only
    cases hlatest : l.latest s sel with
    | none =>
      refine ⟨h, fun sel' latest hsel' hlatest' => ?_⟩
      rw [hsel] at hsel'
      cases hsel'
      rw [hlatest] at hlatest'
      cases hlatest'
    | some latest =>
      dsimp only
      have htold := flushArrived_informed (flushVanished_informed h latest.uids sel.uids.length)
        latest.uids
      have hstays := (flushVanished_stays (l := l) latest.uids sel.uids.length).trans
        (flushArrived_stays latest.uids)
      split
      · rename_i hnone
        refine ⟨htold, fun sel' _ hsel' => ?_⟩
        rw [hnone] at hsel'
        cases hsel'
      · rename_i sel₁ hsel₁
        generalize flushArrived latest.uids (flushVanished latest.uids sel.uids.length l) = l₁ at *
        have hview : (l₁.setSelected { sel₁ with
            seqOf := seqTable sel₁.uids, viewVersion := latest.version }).Informed :=
          htold.setSelected hsel₁ rfl
        have hopen : l₁.Stays (l₁.setSelected { sel₁ with
            seqOf := seqTable sel₁.uids, viewVersion := latest.version }) :=
          ⟨rfl, by rw [hsel₁]; rfl⟩
        generalize hl₂ : l₁.setSelected { sel₁ with
          seqOf := seqTable sel₁.uids, viewVersion := latest.version } = l₂ at *
        have hsel₂ : l₂.selected = some { sel₁ with
            seqOf := seqTable sel₁.uids, viewVersion := latest.version } := by
          rw [← hl₂]
          rfl
        have htold₂ := flushFlags_informed hview latest (l₂.deletedUids s sel₁.name)
          (sel₁.uids.zipIdx 1)
        obtain ⟨hstays₂, sel', hsel', huids, hseen⟩ :=
          flushFlags_seen hsel₂ latest (l₂.deletedUids s sel₁.name) (sel₁.uids.zipIdx 1)
        refine ⟨htold₂, fun sel'' latest' hsel'' hlatest' uid huid item hitem huntold b hb => ?_⟩
        rw [hsel'] at hsel''
        cases hsel''
        obtain ⟨hname, hsame⟩ := ((hstays.trans hopen).trans hstays₂).latest (s := s) hsel hsel'
        obtain ⟨hname₁, _⟩ := hstays.latest (s := s) hsel hsel₁
        rw [hsame, hlatest] at hlatest'
        cases hlatest'
        have hmem : uid ∈ (sel₁.uids.zipIdx 1).map (·.1) := by
          rw [List.zipIdx_map_fst]
          rw [huids] at huid
          exact huid
        have hflags := hseen uid item hitem (.inl hmem)
        rw [htold₂ sel' hsel' uid huntold b hb] at hflags
        rw [Option.some.inj hflags, hname, ← hname₁, hstays₂.deletedUids]

end Session

/-! ## Steps -/

/-- Every action keeps what was recorded what the client believes. -/
theorem Session.Informed.exec {l : Session} {s : Service} {p : Act} (h : l.Informed)
    (hr : p.Recorded l) (hw : p.WorkedOut l) : (p.exec s l).Informed := by
  cases p with
  | send r => exact h.send hr
  | deselect =>
    intro sel hsel
    cases hsel
  | applySnapshot snap readOnly =>
    intro sel hsel uid
    exact Squares.of_none rfl
  | flushPending => exact (h.flush s).1
  | dropVanished errors =>
    simp only [Act.exec, Session.dropVanished]
    split
    · exact h
    · rename_i sel hsel
      split
      · exact h
      · intro sel' hsel' uid
        cases hsel'
        have hold : Squares uid l.log (sel.flagsSeen uid) := h sel hsel uid
        exact hold.skip rfl rfl
  | recordFlags n flags =>
    simp only [Act.exec, Session.recordFlags]
    split
    · exact h
    · rename_i sel hsel
      intro sel' hsel' uid
      cases hsel'
      apply Squares.recorded
      intro hn
      have hseen : Function.update sel.flagsSeen n (some flags) uid = sel.flagsSeen uid :=
        Function.update_of_ne (Ne.symm hn) _ _
      show Squares uid l.log (Function.update sel.flagsSeen n (some flags) uid)
      rw [hseen]
      exact h sel hsel uid
  | noteStored uids mode permanent flags =>
    intro sel hsel uid
    have hold : Squares uid l.log (sel.flagsSeen uid) := h sel hsel uid
    exact hold.stored fun huid => hw sel hsel uid huid
  | _ => exact h.of_eq rfl rfl

end Imap
end ImapGateway
