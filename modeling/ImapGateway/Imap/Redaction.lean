/-
The filter that takes keys out of log records.

Keys are registered and unregistered under a count, and a record is scrubbed of every key
with a count: the longest first, each replaced by `***`.  The asterisks are themselves
characters of a key: one that begins or ends with an asterisk, or has three in a row, may be
spelled anew by what is put in the place of a key.
-/
import ImapGateway.Stream.Substitution
import Mathlib.Data.List.Sort

namespace ImapGateway
namespace Imap

open Substitution

/-! ## Counts -/

/-- The dict of secrets, in the order of insertion. -/
structure RedactingFilter where
  secrets : List (String × Nat)
  deriving DecidableEq

namespace RedactingFilter

/-- `self._secrets.get(secret, 0)` -/
def count (f : RedactingFilter) (secret : String) : Nat := (f.secrets.lookup secret).getD 0

/-- `self._secrets[secret] = n` -/
def setCount (f : RedactingFilter) (secret : String) (n : Nat) : RedactingFilter :=
  if (f.secrets.lookup secret).isSome then
    ⟨f.secrets.map fun x => if x.1 = secret then (x.1, n) else x⟩
  else ⟨f.secrets ++ [(secret, n)]⟩

def register (f : RedactingFilter) (secret : String) : RedactingFilter :=
  if secret = "" then f else f.setCount secret (f.count secret + 1)

def unregister (f : RedactingFilter) (secret : String) : RedactingFilter :=
  if f.count secret ≤ 1 then ⟨f.secrets.filter fun x => x.1 != secret⟩
  else f.setCount secret (f.count secret - 1)

theorem lookup_map_set (secrets : List (String × Nat)) (secret key : String) (n : Nat) :
    (secrets.map fun x => if x.1 = secret then (x.1, n) else x).lookup key =
      if key = secret then (secrets.lookup secret).map fun _ => n else secrets.lookup key := by
  induction secrets with
  | nil => simp
  | cons x secrets ih =>
    obtain ⟨k, m⟩ := x
    simp only [List.map_cons]
    by_cases hk : k = secret
    · subst hk
      rw [if_pos rfl]
      by_cases hkey : key = k
      · subst hkey
        simp
      · have hne : (key == k) = false := by simpa using hkey
        simp only [List.lookup_cons, hne, ih, if_neg hkey]
    · rw [if_neg hk]
      have hne : (secret == k) = false := by simpa using Ne.symm hk
      by_cases hkey : key = k
      · subst hkey
        simp [hk]
      · have hne' : (key == k) = false := by simpa using hkey
        simp only [List.lookup_cons, hne, hne', ih]

theorem count_setCount (f : RedactingFilter) (secret key : String) (n : Nat) :
    (f.setCount secret n).count key = if key = secret then n else f.count key := by
  rw [setCount]
  split
  · rename_i h
    obtain ⟨m, hm⟩ := Option.isSome_iff_exists.mp h
    rw [count, lookup_map_set, hm]
    split <;> rfl
  · rename_i h
    have hnone : f.secrets.lookup secret = none := Option.not_isSome_iff_eq_none.mp h
    rw [count, List.lookup_append, List.lookup_cons]
    by_cases hkey : key = secret
    · subst hkey
      simp [hnone]
    · have hne : (key == secret) = false := by simpa using hkey
      simp [hne, hkey, count]

theorem count_register (f : RedactingFilter) {secret : String} (h : secret ≠ "") (key : String) :
    (f.register secret).count key = if key = secret then f.count key + 1 else f.count key := by
  rw [register, if_neg h, count_setCount]
  by_cases hkey : key = secret
  · rw [if_pos hkey, if_pos hkey, hkey]
  · rw [if_neg hkey, if_neg hkey]

theorem count_unregister (f : RedactingFilter) (secret key : String) :
    (f.unregister secret).count key = if key = secret then f.count key - 1 else f.count key := by
  rw [unregister]
  by_cases hone : f.count secret ≤ 1
  · rw [if_pos hone]
    have hlookup : ∀ secrets : List (String × Nat),
        (secrets.filter fun x => x.1 != secret).lookup key =
          if key = secret then none else secrets.lookup key := by
      intro secrets
      induction secrets with
      | nil => simp
      | cons x secrets ih =>
        obtain ⟨k, m⟩ := x
        by_cases hk : k = secret
        · rw [List.filter_cons_of_neg (by simp [hk]), ih]
          by_cases hkey : key = secret
          · rw [if_pos hkey, if_pos hkey]
          · have hne : (key == k) = false := by simp [hk, hkey]
            rw [if_neg hkey, if_neg hkey, List.lookup_cons, hne]
        · rw [List.filter_cons_of_pos (by simp [hk]), List.lookup_cons, ih, List.lookup_cons]
          by_cases hkey : key = k
          · simp [hkey, hk]
          · have hne : (key == k) = false := by simpa using hkey
            simp only [hne]
    rw [count, hlookup]
    by_cases hkey : key = secret
    · rw [if_pos hkey, if_pos hkey, hkey]
      show 0 = f.count secret - 1
      omega
    · rw [if_neg hkey, if_neg hkey]
      rfl
  · rw [if_neg hone, count_setCount]
    by_cases hkey : key = secret
    · rw [if_pos hkey, if_pos hkey, hkey]
    · rw [if_neg hkey, if_neg hkey]

/-! ## Records -/

/-- `sorted(self._secrets, key=len, reverse=True)` -/
def sortedSecrets (f : RedactingFilter) : List String :=
  (f.secrets.map Prod.fst).mergeSort fun a b => decide (b.length ≤ a.length)

/-- `_scrub` -/
def scrub (text : String) (secrets : List String) : String :=
  String.ofList (replaceAll "***".toList text.toList (secrets.map String.toList))

end RedactingFilter

/-- A record of the logging package.  Without arguments the message is `msg` as it stands. -/
structure LogRecord (A E : Type) where
  msg : String
  args : Option A
  excInfo : Option E
  excText : Option String
  stackInfo : Option String

/-- What the logging package makes of arguments and exceptions; formatting the message may
raise. -/
structure Formatting (A E : Type) where
  format : String → A → Option String
  exception : E → String

variable {A E : Type} (fmt : Formatting A E)

/-- `record.getMessage()` -/
def Formatting.getMessage (r : LogRecord A E) : Option String :=
  match r.args with
  | none => some r.msg
  | some args => fmt.format r.msg args

namespace RedactingFilter

def filter (f : RedactingFilter) (r : LogRecord A E) : LogRecord A E :=
  let secrets := f.sortedSecrets
  if secrets = [] then r
  else match fmt.getMessage r with
    | none => r
    | some message =>
      { msg := scrub message secrets
        args := none
        excInfo := none
        excText := match r.excInfo with
          | some e => some (scrub (fmt.exception e) secrets)
          | none => r.excText.map fun text => scrub text secrets
        stackInfo := r.stackInfo.map fun text => scrub text secrets }

end RedactingFilter

/-- A text has the key somewhere. -/
def Contains (text key : String) : Prop := key.toList <:+: text.toList

instance (text key : String) : Decidable (Contains text key) :=
  inferInstanceAs (Decidable (key.toList <:+: text.toList))

/-- The texts that are written of a record: the message, or what it was to be formatted from,
the exception and the stack. -/
def Formatting.texts (r : LogRecord A E) : List String :=
  (fmt.getMessage r).getD r.msg :: (r.excInfo.map fmt.exception).toList ++ r.excText.toList ++
    r.stackInfo.toList

/-! ## What is left -/

/-- A key that asterisks put beside other text do not spell. -/
structure Plain (key : String) : Prop where
  front : key.toList.head? ≠ some '*'
  back : key.toList.getLast? ≠ some '*'
  middle : ¬"***".toList <:+: key.toList

theorem eq_asterisk {c : Char} (h : c ∈ "***".toList) : c = '*' := by
  have h : c ∈ ['*', '*', '*'] := h
  simpa using h

theorem Plain.apart {key : String} (h : Plain key) (hne : key ≠ "") :
    Substitution.Apart "***".toList key.toList where
  front s hs hsuffix hstart := by
    obtain ⟨c, s, rfl⟩ := List.exists_cons_of_ne_nil hs
    obtain ⟨rest, hrest⟩ := hstart
    apply h.front
    rw [← hrest, ← eq_asterisk (hsuffix.subset List.mem_cons_self)]
    rfl
  back s hs hstart hsuffix := by
    obtain ⟨rest, hrest⟩ := hsuffix
    apply h.back
    rw [← hrest, List.getLast?_append_of_ne_nil _ hs, List.getLast?_eq_some_getLast hs,
      eq_asterisk (hstart.subset (List.getLast_mem hs))]
  outside := h.middle
  inside hin := by
    have hkey : key.toList ≠ [] := fun hnil => hne (String.toList_eq_nil_iff.mp hnil)
    obtain ⟨c, rest, hc⟩ := List.exists_cons_of_ne_nil hkey
    apply h.front
    rw [hc] at hin ⊢
    rw [List.head?_cons, eq_asterisk (hin.subset List.mem_cons_self)]

/-- Among the keys held each that asterisks could spell has another as a part. -/
def KeysGuarded (held : String → Prop) : Prop :=
  ∀ key, held key → Plain key ∨ ∃ other, held other ∧ other ≠ key ∧ Contains key other

namespace RedactingFilter

variable {fmt} {f : RedactingFilter} {held : String → Prop}

theorem mem_sortedSecrets {key : String} (h : 0 < f.count key) : key ∈ f.sortedSecrets := by
  rw [sortedSecrets, List.mem_mergeSort, List.mem_map]
  cases hlookup : f.secrets.lookup key with
  | none =>
    rw [count, hlookup] at h
    cases h
  | some n =>
    obtain ⟨before, behind, heq, -⟩ := List.lookup_eq_some_iff.mp hlookup
    refine ⟨(key, n), ?_, rfl⟩
    rw [heq]
    exact List.mem_append_right _ List.mem_cons_self

/-- Of guarded keys none is left in a scrubbed text. -/
theorem not_contains_scrub (hg : KeysGuarded held) (hne : ∀ key, held key → key ≠ "")
    {secrets : List String} (hall : ∀ key, held key → key ∈ secrets) (text : String)
    {key : String} (hkey : held key) : ¬Contains (scrub text secrets) key := by
  rw [Contains, scrub, String.toList_ofList]
  apply @not_infix_replaceAll _ _ _ _ (fun k => ∃ key, held key ∧ k = key.toList)
  · rintro _ ⟨key, hkey, rfl⟩
    rcases hg key hkey with hplain | ⟨other, hother, hdiff, hpart⟩
    · exact .inl (hplain.apart (hne key hkey))
    · exact .inr ⟨other.toList, ⟨other, hother, rfl⟩, fun heq => hdiff (String.toList_inj.mp heq),
        hpart⟩
  · rintro _ ⟨key, hkey, rfl⟩
    exact List.mem_map_of_mem (hall key hkey)
  · exact ⟨key, hkey, rfl⟩

theorem scrub_single {before behind : List Char} {key : String} (hne : key ≠ "")
    (hfirst : ∀ i < before.length, ¬key.toList <+: (before ++ key.toList ++ behind).drop i)
    (hshort : behind.length < key.toList.length) :
    (scrub (String.ofList (before ++ key.toList ++ behind)) [key]).toList =
      before ++ "***".toList ++ behind := by
  have hkey : key.toList ≠ [] := fun hnil => hne (String.toList_eq_nil_iff.mp hnil)
  simp only [scrub, String.toList_ofList]
  show replace key.toList "***".toList (before ++ key.toList ++ behind) = _
  rw [replace_first hkey hfirst, replace_of_short hshort]

/-- Of keys held alone the plain ones are exactly those that no scrubbed text has. -/
theorem scrub_single_iff {key : String} (hne : key ≠ "") :
    (∀ text, ¬Contains (scrub text [key]) key) ↔ Plain key := by
  constructor
  · intro h
    have hfront : key.toList.head? ≠ some '*' := by
      intro hhead
      obtain ⟨tail, htail⟩ := List.head?_eq_some_iff.mp hhead
      have hshort : tail.length < key.toList.length := by
        rw [htail]
        exact Nat.lt_succ_self _
      apply h (String.ofList ([] ++ key.toList ++ tail))
      rw [Contains, @scrub_single [] _ _ hne (fun i hi => absurd hi (Nat.not_lt_zero i)) hshort,
        htail]
      exact ⟨['*', '*'], [], List.append_nil _⟩
    refine ⟨hfront, fun hlast => ?_, fun hmiddle => ?_⟩
    · -- in `front ++ key` the key is not found before its place: it would begin with an asterisk
      obtain ⟨front, hkey⟩ := List.getLast?_eq_some_iff.mp hlast
      have hfirst : ∀ i < front.length, ¬key.toList <+: (front ++ key.toList ++ []).drop i := by
        intro i hi hfound
        rw [List.append_nil] at hfound
        have hstar : key.toList.drop front.length <+: (front ++ key.toList).drop (i + front.length) := by
          rw [← List.drop_drop]
          exact hfound.drop _
        rw [Nat.add_comm, ← List.drop_drop, List.drop_left, hkey, List.drop_left] at hstar
        obtain ⟨rest, hrest⟩ := hstar
        rw [List.drop_append_of_le_length (Nat.le_of_lt hi)] at hfound hrest
        obtain ⟨c, tail, hc⟩ := List.exists_cons_of_ne_nil (List.drop_eq_nil_iff.not.mpr (Nat.not_le.mpr hi))
        rw [hc] at hfound hrest
        obtain ⟨rfl, -⟩ := List.cons.inj hrest
        obtain ⟨behind, hbehind⟩ := hfound
        apply hfront
        cases hk : key.toList with
        | nil => exact absurd (String.toList_eq_nil_iff.mp hk) hne
        | cons x xs =>
          rw [hk] at hbehind
          rw [List.head?_cons, (List.cons.inj hbehind).1]
      apply h (String.ofList (front ++ key.toList ++ []))
      rw [Contains, scrub_single hne hfirst (by rw [hkey, List.length_append]; exact Nat.succ_pos _)]
      rw [hkey]
      exact ⟨[], ['*', '*'], by simp⟩
    · -- with the first three asterisks in place the key is spelled by what stands around them
      obtain ⟨front, behind, hkey, hfirst⟩ := exists_first hmiddle
      have hplace : ∀ i < front.length, ¬key.toList <+: (front ++ key.toList ++ behind).drop i := by
        intro i hi hfound
        apply hfirst i hi
        have hstars : key.toList.drop front.length <+:
            (front ++ key.toList ++ behind).drop (i + front.length) := by
          rw [← List.drop_drop]
          exact hfound.drop _
        have hlength := congrArg List.length hkey
        simp only [List.length_append] at hlength
        rw [Nat.add_comm, ← List.drop_drop, List.append_assoc, List.drop_left,
          List.drop_append_of_le_length (by omega)] at hstars
        have hthree : "***".toList <+: key.toList.drop front.length := by
          rw [hkey, List.append_assoc, List.drop_left]
          exact List.prefix_append _ _
        apply List.prefix_of_prefix_length_le (hthree.trans hstars) (List.prefix_append _ _)
        rw [List.length_drop]
        omega
      apply h (String.ofList (front ++ key.toList ++ behind))
      rw [Contains, scrub_single hne hplace, ← hkey]
      rw [hkey, List.length_append, List.length_append]
      have hthree : 0 < "***".toList.length := by decide
      omega
  · intro hplain text
    have hne' : ∀ k, k = key → k ≠ "" := fun k hk => hk ▸ hne
    exact @not_contains_scrub (fun k => k = key) (fun k hk => .inl (hk ▸ hplain)) hne'
      _ (fun k hk => hk ▸ List.mem_singleton_self key) text _ rfl

theorem filter_of_getMessage {r : LogRecord A E} {message : String}
    (hsecrets : f.sortedSecrets ≠ []) (hmessage : fmt.getMessage r = some message) :
    f.filter fmt r =
      { msg := scrub message f.sortedSecrets
        args := none
        excInfo := none
        excText := match r.excInfo with
          | some e => some (scrub (fmt.exception e) f.sortedSecrets)
          | none => r.excText.map fun text => scrub text f.sortedSecrets
        stackInfo := r.stackInfo.map fun text => scrub text f.sortedSecrets } := by
  simp only [filter, if_neg hsecrets, hmessage]

/-- A record that could be formatted leaves the filter without a key. -/
theorem not_contains_filter (hg : KeysGuarded held) (hne : ∀ key, held key → key ≠ "")
    (hcount : ∀ key, held key → 0 < f.count key) {r : LogRecord A E}
    (hformats : fmt.getMessage r ≠ none) {key : String} (hkey : held key) :
    ∀ text ∈ fmt.texts (f.filter fmt r), ¬Contains text key := by
  have hall : ∀ key, held key → key ∈ f.sortedSecrets := fun key h => mem_sortedSecrets (hcount key h)
  have hsecrets : f.sortedSecrets ≠ [] := List.ne_nil_of_mem (hall key hkey)
  obtain ⟨message, hmessage⟩ := Option.ne_none_iff_exists'.mp hformats
  have hscrubbed : ∀ text, ¬Contains (scrub text f.sortedSecrets) key := fun text =>
    not_contains_scrub hg hne hall text hkey
  intro text htext
  rw [filter_of_getMessage hsecrets hmessage] at htext
  rcases List.mem_append.mp htext with htext | hstack
  · rcases List.mem_append.mp htext with hmsg | hexc
    · rw [List.mem_singleton.mp hmsg]
      exact hscrubbed message
    · cases hinfo : r.excInfo with
      | some e =>
        rw [hinfo] at hexc
        rw [List.mem_singleton.mp hexc]
        exact hscrubbed _
      | none =>
        rw [hinfo] at hexc
        obtain ⟨before, -, rfl⟩ := Option.map_eq_some_iff.mp (Option.mem_toList.mp hexc)
        exact hscrubbed before
  · obtain ⟨before, -, rfl⟩ := Option.map_eq_some_iff.mp (Option.mem_toList.mp hstack)
    exact hscrubbed before

end RedactingFilter

end Imap
end ImapGateway
