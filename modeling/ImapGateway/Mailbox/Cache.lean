/-
What is in the byte cache after it is touched.

A use of an object moves it to the end and changes nothing that is found.  A
`put` may evict any objects, and adds at most the one put.
-/
import ImapGateway.Mailbox.Service

namespace ImapGateway
namespace Mailbox
namespace ByteCache

theorem lookup_filter_ne (items : List (String × Bytes)) (key k : String) :
    (items.filter fun x => x.1 != key).lookup k = if k = key then none else items.lookup k := by
  induction items with
  | nil => simp
  | cons x items ih =>
    obtain ⟨a, data⟩ := x
    by_cases ha : a = key
    · rw [List.filter_cons_of_neg (by simp [ha]), ih]
      by_cases hk : k = key
      · simp [hk]
      · have hne : (k == a) = false := by simp [ha, hk]
        simp only [if_neg hk, List.lookup_cons, hne]
    · rw [List.filter_cons_of_pos (by simp [ha]), List.lookup_cons, ih, List.lookup_cons]
      by_cases hka : k = a
      · simp [hka, ha]
      · have hne : (k == a) = false := by simp [hka]
        simp only [hne]

/-- A use changes nothing that is found. -/
theorem find_moveToEnd (c : ByteCache) (key k : String) :
    (c.moveToEnd key).find k = c.find k := by
  rw [moveToEnd]
  cases h : c.find key with
  | none => rfl
  | some data =>
    simp only [find, List.lookup_append, lookup_filter_ne]
    by_cases hk : k = key
    · subst hk
      simpa [find] using h.symm
    · have hne : (k == key) = false := by simp [hk]
      simp [hk, List.lookup_cons, hne]

theorem mem_of_find {c : ByteCache} {key : String} {data : Bytes} (h : c.find key = some data) :
    (key, data) ∈ c.items := by
  obtain ⟨l₁, l₂, heq, _⟩ := List.lookup_eq_some_iff.mp h
  rw [heq]
  exact List.mem_append_right _ (List.mem_cons_self ..)

theorem mem_moveToEnd {c : ByteCache} {key : String} {x : String × Bytes}
    (h : x ∈ (c.moveToEnd key).items) : x ∈ c.items := by
  rw [moveToEnd] at h
  cases hf : c.find key with
  | none =>
    rw [hf] at h
    exact h
  | some data =>
    rw [hf] at h
    rcases List.mem_append.mp h with hold | hnew
    · exact (List.mem_filter.mp hold).1
    · rw [List.mem_singleton.mp hnew]
      exact mem_of_find hf

theorem mem_evict {maxBytes : Nat} {items : List (String × Bytes)} {size : Nat}
    {x : String × Bytes} (h : x ∈ (evict maxBytes items size).1) : x ∈ items := by
  induction items generalizing size with
  | nil => exact h
  | cons y items ih =>
    rw [evict] at h
    split at h
    · exact List.mem_cons_of_mem _ (ih h)
    · exact h

/-- What is in the cache after a `put` was there before, or was put. -/
theorem mem_put {c : ByteCache} {key : String} {data : Bytes} {x : String × Bytes}
    (h : x ∈ (c.put key data).items) : x ∈ c.items ∨ x = (key, data) := by
  rw [put] at h
  split at h
  · exact .inl (List.mem_filter.mp h).1
  · rcases List.mem_append.mp (mem_evict h) with hold | hnew
    · exact .inl (List.mem_filter.mp hold).1
    · exact .inr (List.mem_singleton.mp hnew)

end ByteCache
end Mailbox
end ImapGateway
