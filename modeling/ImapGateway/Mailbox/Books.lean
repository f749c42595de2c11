/-
The books of the byte cache.

The size is kept beside the entries.  Every branch of the operations moves both, but one: a
value over the whole budget takes the entry of its key along and leaves the size.  From then on
the size is too large, by what that entry had, and every `put` evicts as much too many.  As long
as no such value meets an entry that has bytes, the size is that of the entries.
-/
import ImapGateway.Mailbox.Cache
import ImapGateway.Stream.Recency

namespace ImapGateway
namespace Mailbox
namespace ByteCache

open Recency

/-- `ByteCache(max_bytes)` -/
def new (maxBytes : Int) : ByteCache := { maxBytes := maxBytes.toNat, items := [], size := 0 }

/-- What is found is moved to the end, also when it is empty. -/
def get (c : ByteCache) (key : String) : Option Bytes × ByteCache := (c.find key, c.moveToEnd key)

def discard (c : ByteCache) (key : String) : ByteCache :=
  match c.find key with
  | some old =>
    { c with items := c.items.filter fun x => x.1 != key, size := c.size - old.length }
  | none => c

def clear (c : ByteCache) : ByteCache := { c with items := [], size := 0 }

inductive Op where
  | put (key : String) (data : Bytes)
  | get (key : String)
  | discard (key : String)
  | clear

def Op.apply (c : ByteCache) : Op → ByteCache
  | put key data => c.put key data
  | get key => (c.get key).2
  | discard key => c.discard key
  | clear => c.clear

def run (budget : Int) (ops : List Op) : ByteCache := ops.foldl Op.apply (new budget)

theorem run_concat (budget : Int) (ops : List Op) (op : Op) :
    run budget (ops ++ [op]) = op.apply (run budget ops) := by
  rw [run, List.foldl_append]
  rfl

/-! ## What was done to a key -/

def Op.uses (key : String) : Op → Bool
  | put k _ => k == key
  | get k => k == key
  | discard _ => false
  | clear => false

def Op.puts (key : String) : Op → Option Bytes
  | put k data => if k = key then some data else none
  | _ => none

/-- How many operations there were up to the last use of the key. -/
def lastUse (ops : List Op) (key : String) : Nat :=
  (ops.reverse.dropWhile fun op => !op.uses key).length

/-- The value of the last `put` of the key. -/
def lastPut (ops : List Op) (key : String) : Option Bytes := ops.reverse.findSome? (Op.puts key)

theorem lastUse_concat (ops : List Op) (op : Op) (key : String) :
    lastUse (ops ++ [op]) key = if op.uses key then ops.length + 1 else lastUse ops key := by
  rw [lastUse, List.reverse_concat, List.dropWhile_cons]
  cases op.uses key
  · rfl
  · simp

theorem lastUse_le (ops : List Op) (key : String) : lastUse ops key ≤ ops.length := by
  rw [← ops.length_reverse]
  exact (List.dropWhile_sublist _).length_le

theorem lastPut_concat (ops : List Op) (op : Op) (key : String) :
    lastPut (ops ++ [op]) key = (op.puts key).or (lastPut ops key) := by
  rw [lastPut, List.reverse_concat, List.findSome?_cons]
  cases op.puts key <;> rfl

/-! ## What an operation leaves -/

/-- What is no more than the budget is there after its `put`, and in front of it what the
budget has room for, the longest unused gone.  Nothing else takes the entry of another key. -/
def Keeps (c c' : ByteCache) : Op → Prop
  | .put key data =>
    if data.length ≤ c.maxBytes then
      ∃ gone kept, Dropped List.length (c.maxBytes - data.length)
        (c.items.filter fun x => x.1 != key) gone kept ∧ c'.items = kept ++ [(key, data)]
    else ∀ x ∈ c.items, x.1 ≠ key → x ∈ c'.items
  | .get _ => ∀ x ∈ c.items, x ∈ c'.items
  | .discard key => ∀ x ∈ c.items, x.1 ≠ key → x ∈ c'.items
  | .clear => True

/-- The books after some operations. -/
structure Books (budget : Int) (ops : List Op) : Prop where
  size_eq : (run budget ops).size = total List.length (run budget ops).items
  size_le : (run budget ops).size ≤ budget.toNat
  get_eq : ∀ key data, ((run budget ops).get key).1 = some data → lastPut ops key = some data
  present : ∀ before key data, ops = before ++ [.put key data] → data.length ≤ budget.toNat →
    ((run budget ops).get key).1 = some data
  ordered : Ordered (lastUse ops) (run budget ops).items
  keeps : ∀ before op, ops = before ++ [op] → Keeps (run budget before) (run budget ops) op

/-- No value over the budget is put for a key that has bytes. -/
def Unspoilt (budget : Int) (ops : List Op) : Prop :=
  ∀ before key data, before ++ [.put key data] <+: ops → budget.toNat < data.length →
    ∀ old, (run budget before).find key = some old → old = []

/-! ## What holds whatever the size says -/

/-- The entries are in the order of their use, and each has the value last put. -/
structure Fresh (budget : Int) (ops : List Op) (c : ByteCache) : Prop where
  maxBytes : c.maxBytes = budget.toNat
  ordered : Ordered (lastUse ops) c.items
  put : ∀ x ∈ c.items, lastPut ops x.1 = some x.2

section

variable {budget : Int} {ops : List Op} {c c' : ByteCache}

/-- An operation that takes entries out and uses no key. -/
theorem Fresh.sublist (h : Fresh budget ops c) {op : Op} (huse : ∀ k, op.uses k = false)
    (hput : ∀ k, op.puts k = none) (hmax : c'.maxBytes = c.maxBytes)
    (hs : c'.items.Sublist c.items) : Fresh budget (ops ++ [op]) c' := by
  refine ⟨hmax.trans h.maxBytes, ?_, fun x hx => ?_⟩
  · apply (h.ordered.sublist hs).congr
    intro x _
    rw [lastUse_concat, huse, if_neg Bool.false_ne_true]
  · rw [lastPut_concat, hput]
    exact h.put x (hs.subset hx)

/-- An operation that brings the entry of a key to the end. -/
theorem Fresh.use (h : Fresh budget ops c) {op : Op} {key : String} {data : Bytes}
    (huse : ∀ k, op.uses k = (key == k)) (hput : ∀ k, k ≠ key → op.puts k = none)
    (hdata : lastPut (ops ++ [op]) key = some data) (hmax : c'.maxBytes = c.maxBytes)
    (hs : c'.items.Sublist ((c.items.filter fun x => x.1 != key) ++ [(key, data)])) :
    Fresh budget (ops ++ [op]) c' := by
  have hne : ∀ x ∈ c.items.filter fun x => x.1 != key, x.1 ≠ key := by
    intro x hx
    simpa using (List.mem_filter.mp hx).2
  have hsame : ∀ x ∈ c.items.filter fun x => x.1 != key, lastUse (ops ++ [op]) x.1 = lastUse ops x.1 := by
    intro x hx
    have hkey : (key == x.1) = false := by simpa using (hne x hx).symm
    rw [lastUse_concat, huse, hkey, if_neg Bool.false_ne_true]
  have hfilter : Ordered (lastUse (ops ++ [op])) (c.items.filter fun x => x.1 != key) :=
    (h.ordered.sublist List.filter_sublist).congr hsame
  refine ⟨hmax.trans h.maxBytes, ?_, fun x hx => ?_⟩
  · refine Ordered.sublist ?_ hs
    apply hfilter.concat
    intro x hx
    rw [hsame x hx, lastUse_concat, huse, beq_self_eq_true, if_pos rfl]
    exact Nat.lt_succ_of_le (lastUse_le ops x.1)
  · rcases List.mem_append.mp (hs.subset hx) with hold | hnew
    · rw [lastPut_concat, hput _ (hne x hold)]
      exact h.put x (List.mem_filter.mp hold).1
    · rw [List.mem_singleton.mp hnew]
      exact hdata

theorem evict_sublist (maxBytes : Nat) (items : List (String × Bytes)) (size : Nat) :
    (evict maxBytes items size).1.Sublist items := by
  induction items generalizing size with
  | nil => exact List.Sublist.refl _
  | cons x items ih =>
    rw [evict]
    split
    · exact (ih _).trans (List.sublist_cons_self x items)
    · exact List.Sublist.refl _

theorem put_sublist (c : ByteCache) (key : String) (data : Bytes) :
    (c.put key data).items.Sublist ((c.items.filter fun x => x.1 != key) ++ [(key, data)]) := by
  rw [put]
  split
  · exact List.sublist_append_left _ _
  · exact evict_sublist _ _ _

theorem put_maxBytes (c : ByteCache) (key : String) (data : Bytes) :
    (c.put key data).maxBytes = c.maxBytes := by
  rw [put]
  split <;> rfl

theorem find_iff_mem (h : Fresh budget ops c) {key : String} {data : Bytes} :
    c.find key = some data ↔ (key, data) ∈ c.items := by
  refine ⟨mem_of_find, fun hmem => ?_⟩
  cases hfind : c.find key with
  | none =>
    have hnone := List.lookup_eq_none_iff.mp hfind _ hmem
    simp at hnone
  | some old =>
    have hold := h.put _ (mem_of_find hfind)
    rw [h.put _ hmem] at hold
    exact hold.symm

/-- Each operation keeps the order and the values. -/
theorem Fresh.apply (h : Fresh budget ops c) (op : Op) :
    Fresh budget (ops ++ [op]) (op.apply c) := by
  cases op with
  | put key data =>
    apply @Fresh.use _ _ _ _ h _ key data
    · exact fun k => rfl
    · exact fun k hk => if_neg fun heq => hk heq.symm
    · rw [lastPut_concat, Op.puts, if_pos rfl]
      rfl
    · exact put_maxBytes c key data
    · exact put_sublist c key data
  | get key =>
    show Fresh budget _ (c.moveToEnd key)
    rw [moveToEnd]
    cases hfind : c.find key with
    | none =>
      refine ⟨h.maxBytes, h.ordered.congr fun x hx => ?_, fun x hx => ?_⟩
      · have hne : (key == x.1) = false := by
          have hx := List.lookup_eq_none_iff.mp hfind x hx
          simpa using hx
        rw [lastUse_concat, Op.uses, hne, if_neg Bool.false_ne_true]
      · rw [lastPut_concat]
        exact h.put x hx
    | some data =>
      apply @Fresh.use _ _ _ _ h _ key data
      · exact fun k => rfl
      · exact fun k _ => rfl
      · rw [lastPut_concat]
        exact h.put _ (mem_of_find hfind)
      · rfl
      · exact List.Sublist.refl _
  | discard key =>
    show Fresh budget _ (c.discard key)
    rw [discard]
    cases c.find key with
    | none => exact h.sublist (fun _ => rfl) (fun _ => rfl) rfl (List.Sublist.refl _)
    | some old => exact h.sublist (fun _ => rfl) (fun _ => rfl) rfl List.filter_sublist
  | clear => exact h.sublist (fun _ => rfl) (fun _ => rfl) rfl (List.nil_sublist _)

end

theorem fresh_run (budget : Int) (ops : List Op) : Fresh budget ops (run budget ops) := by
  induction ops using List.reverseRecOn with
  | nil => exact ⟨rfl, List.Pairwise.nil, nofun⟩
  | append_singleton ops op ih =>
    rw [run_concat]
    exact ih.apply op

/-! ## The size -/

/-- The size is that of the entries, and they are within the budget. -/
structure Balanced (c : ByteCache) : Prop where
  size_eq : c.size = total List.length c.items
  size_le : c.size ≤ c.maxBytes

/-- With the right size, what is evicted is what does not fit. -/
theorem evict_total (maxBytes : Nat) (items : List (String × Bytes)) :
    evict maxBytes items (total List.length items) =
      (fit List.length maxBytes items, total List.length (fit List.length maxBytes items)) := by
  induction items with
  | nil => rfl
  | cons x items ih =>
    rw [evict, fit]
    by_cases h : maxBytes < total List.length (x :: items)
    · rw [if_pos h, if_pos h, total_cons, Nat.add_sub_cancel_left, ih]
    · rw [if_neg h, if_neg h]

theorem total_concat (items : List (String × Bytes)) (key : String) (data : Bytes) :
    total List.length (items ++ [(key, data)]) = total List.length items + data.length := by
  rw [total_append, total_cons, total_nil]
  rfl

section

variable {budget : Int} {ops : List Op} {c : ByteCache} (hfresh : Fresh budget ops c)
  (hbal : Balanced c)

include hfresh

/-- The entry of a key, when it goes, takes its bytes along. -/
theorem total_without {key : String} {old : Bytes} (h : c.find key = some old) :
    total List.length (c.items.filter fun x => x.1 != key : List (String × Bytes)) + old.length =
      total List.length c.items :=
  total_filter_add List.length hfresh.ordered.nodup (mem_of_find h)

omit hfresh in
theorem filter_of_find_none {key : String} (h : c.find key = none) :
    (c.items.filter fun x => x.1 != key) = c.items := by
  apply filter_ne_eq_self
  intro x hx heq
  have hne := List.lookup_eq_none_iff.mp h x hx
  simp [heq] at hne

include hbal

theorem put_of_balanced {key : String} {data : Bytes} (hle : data.length ≤ c.maxBytes) :
    c.put key data =
      { c with
        items := fit List.length (c.maxBytes - data.length)
          (c.items.filter fun x => x.1 != key) ++ [(key, data)],
        size := total List.length (fit List.length (c.maxBytes - data.length)
          (c.items.filter fun x => x.1 != key) ++ [(key, data)]) } := by
  have hevict : ∀ n, n = total List.length ((c.items.filter fun x => x.1 != key) ++ [(key, data)]) →
      evict c.maxBytes ((c.items.filter fun x => x.1 != key) ++ [(key, data)]) n =
        (fit List.length (c.maxBytes - data.length) (c.items.filter fun x => x.1 != key) ++
          [(key, data)],
        total List.length (fit List.length (c.maxBytes - data.length)
          (c.items.filter fun x => x.1 != key) ++ [(key, data)])) := by
    rintro n rfl
    rw [evict_total, fit_concat List.length c.maxBytes (x := (key, data)) hle]
  have hsize := hbal.size_eq
  rw [total_concat] at hevict
  rw [put, if_neg (Nat.not_lt.mpr hle)]
  cases hfind : c.find key with
  | none =>
    rw [filter_of_find_none hfind] at hevict ⊢
    have h := hevict (c.size + data.length) (by omega)
    simp only [h]
  | some old =>
    have hwithout := total_without hfresh hfind
    have h := hevict (c.size - old.length + data.length) (by omega)
    simp only [h]

/-- Each operation but the one keeps the size right. -/
theorem Balanced.apply (op : Op) (hop : ∀ key data, op = .put key data → c.maxBytes < data.length →
    ∀ old, c.find key = some old → old = []) : Balanced (op.apply c) := by
  cases op with
  | put key data =>
    show Balanced (c.put key data)
    by_cases hle : data.length ≤ c.maxBytes
    · rw [put_of_balanced hfresh hbal hle]
      refine ⟨rfl, ?_⟩
      have hfit := total_fit_le List.length (c.maxBytes - data.length)
        (c.items.filter fun x => x.1 != key)
      show total List.length (_ ++ [(key, data)]) ≤ c.maxBytes
      rw [total_concat]
      omega
    · rw [put, if_pos (Nat.not_le.mp hle)]
      refine ⟨?_, hbal.size_le⟩
      show c.size = total List.length (c.items.filter fun x => x.1 != key)
      rw [hbal.size_eq]
      cases hfind : c.find key with
      | none => rw [filter_of_find_none hfind]
      | some old =>
        have hwithout := total_without hfresh hfind
        rw [hop key data rfl (Nat.not_le.mp hle) old hfind] at hwithout
        exact hwithout.symm
  | get key =>
    show Balanced (c.moveToEnd key)
    rw [moveToEnd]
    cases hfind : c.find key with
    | none => exact hbal
    | some data =>
      have hwithout := total_without hfresh hfind
      refine ⟨?_, hbal.size_le⟩
      show c.size = total List.length (_ ++ [(key, data)])
      rw [total_concat, hbal.size_eq]
      exact hwithout.symm
  | discard key =>
    show Balanced (c.discard key)
    rw [discard]
    cases hfind : c.find key with
    | none => exact hbal
    | some old =>
      have hwithout := total_without hfresh hfind
      have hsize := hbal.size_eq
      refine ⟨?_, Nat.le_trans (Nat.sub_le _ _) hbal.size_le⟩
      show c.size - old.length =
        total List.length (c.items.filter fun x => x.1 != key : List (String × Bytes))
      omega
  | clear => exact ⟨rfl, Nat.zero_le _⟩

theorem keeps_apply (op : Op) : Keeps c (op.apply c) op := by
  cases op with
  | put key data =>
    rw [Keeps]
    by_cases hle : data.length ≤ c.maxBytes
    · rw [if_pos hle]
      obtain ⟨gone, hdropped⟩ := dropped_fit List.length (c.maxBytes - data.length)
        (c.items.filter fun x => x.1 != key)
      refine ⟨gone, _, hdropped, ?_⟩
      show (c.put key data).items = _
      rw [put_of_balanced hfresh hbal hle]
    · rw [if_neg hle]
      intro x hx hne
      show x ∈ (c.put key data).items
      rw [put, if_pos (Nat.not_le.mp hle)]
      exact List.mem_filter.mpr ⟨hx, by simpa using hne⟩
  | get key =>
    intro x hx
    show x ∈ (c.moveToEnd key).items
    rw [moveToEnd]
    cases hfind : c.find key with
    | none => exact hx
    | some data =>
      by_cases hkey : x.1 = key
      · have hx' : c.find x.1 = some x.2 := (find_iff_mem hfresh).mpr hx
        rw [hkey, hfind] at hx'
        injection hx' with hx'
        apply List.mem_append_right
        rw [List.mem_singleton, hx', ← hkey]
      · exact List.mem_append_left _ (List.mem_filter.mpr ⟨hx, by simpa using hkey⟩)
  | discard key =>
    intro x hx hne
    show x ∈ (c.discard key).items
    rw [discard]
    cases c.find key with
    | none => exact hx
    | some old => exact List.mem_filter.mpr ⟨hx, by simpa using hne⟩
  | clear => trivial

end

/-! ## Every run -/

theorem Unspoilt.of_concat {budget : Int} {ops : List Op} {op : Op}
    (h : Unspoilt budget (ops ++ [op])) : Unspoilt budget ops :=
  fun before key data hbefore => h before key data (hbefore.trans (List.prefix_append ops [op]))

theorem balanced_run {budget : Int} {ops : List Op} (h : Unspoilt budget ops) :
    Balanced (run budget ops) := by
  induction ops using List.reverseRecOn with
  | nil => exact ⟨rfl, Nat.zero_le _⟩
  | append_singleton ops op ih =>
    rw [run_concat]
    have hfresh := fresh_run budget ops
    refine (ih h.of_concat).apply hfresh op fun key data hop hlt => ?_
    rw [hfresh.maxBytes] at hlt
    exact h ops key data (hop ▸ List.prefix_rfl) hlt

theorem books_of_unspoilt {budget : Int} {ops : List Op} (h : Unspoilt budget ops) :
    Books budget ops := by
  have hfresh := fresh_run budget ops
  have hbal := balanced_run h
  have hkeeps : ∀ before op, ops = before ++ [op] →
      Keeps (run budget before) (run budget ops) op := by
    rintro before op rfl
    rw [run_concat]
    exact keeps_apply (fresh_run budget before) (balanced_run h.of_concat) op
  refine ⟨hbal.size_eq, hfresh.maxBytes ▸ hbal.size_le, fun key data hget => ?_,
    fun before key data heq hle => ?_, hfresh.ordered, hkeeps⟩
  · exact hfresh.put _ (mem_of_find hget)
  · have hkept := hkeeps before (.put key data) heq
    rw [Keeps, (fresh_run budget before).maxBytes, if_pos hle] at hkept
    obtain ⟨gone, kept, -, hitems⟩ := hkept
    apply (find_iff_mem hfresh).mpr
    rw [hitems]
    exact List.mem_append_right _ (List.mem_singleton_self _)

/-- The books are right after every operation just when no value over the budget was put for a
key that had bytes. -/
theorem books_iff_unspoilt (budget : Int) (ops : List Op) :
    (∀ before, before <+: ops → Books budget before) ↔ Unspoilt budget ops := by
  constructor
  · intro h before key data hput hlt old hfind
    have hbefore := (h before ((List.prefix_append before _).trans hput)).size_eq
    have hafter := (h _ hput).size_eq
    have hwithout := total_without (fresh_run budget before) hfind
    have hdrop : run budget (before ++ [.put key data]) =
        { run budget before with
          items := (run budget before).items.filter fun x => x.1 != key } := by
      rw [run_concat]
      show (run budget before).put key data = _
      rw [put, if_pos ((fresh_run budget before).maxBytes ▸ hlt)]
    rw [hdrop] at hafter
    change (run budget before).size = total List.length
      ((run budget before).items.filter fun x => x.1 != key : List (String × Bytes)) at hafter
    exact List.length_eq_zero_iff.mp (by omega)
  · intro h before hbefore
    apply books_of_unspoilt
    exact fun first key data hfirst => h first key data (hfirst.trans hbefore)

/-- The entry goes, and its three bytes stay in the size. -/
theorem books_spoilt : ¬∀ before, before <+: [Op.put "a" [1, 2, 3], .put "a" [1, 2, 3, 4]] →
    Books 3 before := by
  intro h
  have hsize := (h _ List.prefix_rfl).size_eq
  revert hsize
  decide

end ByteCache
end Mailbox
end ImapGateway
