import Mathlib
import ScopeIndex.Json.Value

/-!
# Members as a mapping

Members keep the order in which their keys came up.  Where no key is repeated they are a
mapping besides, and what they map a key to is the member with that key.

## Main results

* `Members.settle_of_nodup` — where no key is repeated there is nothing to settle.
* `Members.get?_eq_some_iff` — a key is looked up to its member.
* `Members.perm_of_get?_eq` — members with the same mapping differ in their order only.
* `Members.foldl_put_perm` — what is put, in whatever order, is a mapping.
-/

namespace ScopeIndex
namespace Members

variable {α : Type} {ms ms' acc acc' : Members α} {key : String} {value : α}

theorem get?_cons (m : String × α) (ms : Members α) (key : String) :
    get? (m :: ms) key = if m.1 = key then some m.2 else get? ms key := by
  rw [get?, List.find?_cons]
  by_cases h : m.1 = key
  · simp [h]
  · simp [h, get?]

theorem put_of_not_mem (h : key ∉ keys ms) (value : α) :
    put key value ms = ms ++ [(key, value)] := by
  induction ms with
  | nil => rfl
  | cons m ms ih =>
    obtain ⟨k, v⟩ := m
    rw [keys, List.map_cons, List.mem_cons, not_or] at h
    rw [put, if_neg (Ne.symm h.1), ih h.2, List.cons_append]

/-- Where no key is repeated there is nothing to settle. -/
theorem settle_of_nodup (h : (keys ms).Nodup) : settle ms = ms := by
  suffices hacc : ∀ acc : Members α, (keys (acc ++ ms)).Nodup →
      ms.foldl (fun acc m => put m.1 m.2 acc) acc = acc ++ ms from hacc [] h
  clear h
  induction ms with
  | nil => exact fun acc _ => (List.append_nil acc).symm
  | cons m ms ih =>
    intro acc hacc
    have hnew : m.1 ∉ keys acc := by
      rw [keys, List.map_append, List.map_cons] at hacc
      exact fun hm => (List.nodup_append.mp hacc).2.2 _ hm _ List.mem_cons_self rfl
    rw [List.append_cons] at hacc ⊢
    rw [List.foldl_cons, put_of_not_mem hnew]
    exact ih _ hacc

/-- Where no key is repeated a key is looked up to its member. -/
theorem get?_eq_some_iff (h : (keys ms).Nodup) : get? ms key = some value ↔ (key, value) ∈ ms := by
  induction ms with
  | nil => simp [get?]
  | cons m ms ih =>
    obtain ⟨k, v⟩ := m
    rw [keys, List.map_cons, List.nodup_cons] at h
    have hrest : get? ms key = some value ↔ (key, value) ∈ ms := ih h.2
    rw [get?_cons, List.mem_cons, Prod.mk.injEq]
    by_cases hk : k = key
    · subst hk
      have hother : (k, value) ∉ ms := fun hmem =>
        h.1 (List.mem_map.mpr ⟨_, hmem, rfl⟩)
      simp [hother, eq_comm]
    · simpa [hk, Ne.symm hk] using hrest

/-- Members with the same mapping differ in their order only. -/
theorem perm_of_get?_eq (h : (keys ms).Nodup) (h' : (keys ms').Nodup)
    (heq : ∀ key, get? ms key = get? ms' key) : ms.Perm ms' := by
  rw [List.perm_ext_iff_of_nodup h.of_map h'.of_map]
  rintro ⟨key, value⟩
  rw [← get?_eq_some_iff h, ← get?_eq_some_iff h', heq]

/-! ### Putting members one after the other -/

theorem nodup_keys_put (h : (keys ms).Nodup) : (keys (put key value ms)).Nodup := by
  rw [keys_put]
  split
  · exact h
  · next hnew => exact h.append (List.nodup_singleton key) (by simpa using hnew)

theorem nodup_keys_foldl_put (h : (keys acc).Nodup) :
    (keys (ms.foldl (fun acc m => put m.1 m.2 acc) acc)).Nodup :=
  List.foldlRecOn ms _ (motive := fun acc => (keys acc).Nodup) h fun _ hacc _ _ =>
    nodup_keys_put hacc

/-- No key is lost. -/
theorem mem_keys_settle (h : key ∈ keys ms) : key ∈ keys (settle ms) := by
  suffices hacc : ∀ acc : Members α, key ∈ keys acc ∨ key ∈ keys ms →
      key ∈ keys (ms.foldl (fun acc m => put m.1 m.2 acc) acc) from hacc [] (.inr h)
  clear h
  induction ms with
  | nil => exact fun acc hkey => hkey.resolve_right List.not_mem_nil
  | cons m ms ih =>
    intro acc hkey
    rw [List.foldl_cons]
    refine ih _ ?_
    have hput : key ∈ keys (put m.1 m.2 acc) ↔ key ∈ keys acc ∨ key = m.1 := by
      rw [keys_put]
      split
      · next hmem => exact ⟨.inl, fun hkey => hkey.elim id fun heq => heq ▸ hmem⟩
      · rw [List.mem_append, List.mem_singleton]
    rw [hput, or_assoc, ← List.mem_cons]
    exact hkey

/-- New members count before the old ones. -/
theorem get?_foldl_put (h : (keys ms).Nodup) :
    get? (ms.foldl (fun acc m => put m.1 m.2 acc) acc) key = (get? ms key).or (get? acc key) := by
  induction ms generalizing acc with
  | nil => rfl
  | cons m ms ih =>
    obtain ⟨k, v⟩ := m
    rw [keys, List.map_cons, List.nodup_cons] at h
    rw [List.foldl_cons, ih h.2, get?_cons]
    by_cases hk : k = key
    · subst hk
      have hother : get? ms k = none := by
        rw [Option.eq_none_iff_forall_ne_some]
        exact fun v hv => h.1 (List.mem_map.mpr ⟨_, (get?_eq_some_iff h.2).mp hv, rfl⟩)
      rw [hother, get?_put_self, if_pos rfl, Option.none_or, Option.some_or]
    · rw [get?_put_of_ne _ (Ne.symm hk), if_neg hk]

/-- What is put, in whatever order, gives the same members but for their order. -/
theorem foldl_put_perm (h : (keys ms).Nodup) (hms : ms.Perm ms') (hacc : (keys acc).Nodup)
    (hperm : acc.Perm acc') :
    (ms.foldl (fun acc m => put m.1 m.2 acc) acc).Perm
      (ms'.foldl (fun acc m => put m.1 m.2 acc) acc') := by
  have h' : (keys ms').Nodup := (hms.map _).nodup_iff.mp h
  have hacc' : (keys acc').Nodup := (hperm.map _).nodup_iff.mp hacc
  have hget : ∀ {xs ys : Members α}, xs.Perm ys → (keys xs).Nodup → ∀ key,
      get? xs key = get? ys key := by
    intro xs ys hxy hx key
    refine Option.ext fun value => ?_
    rw [get?_eq_some_iff hx, get?_eq_some_iff ((hxy.map _).nodup_iff.mp hx), hxy.mem_iff]
  refine perm_of_get?_eq (nodup_keys_foldl_put hacc) (nodup_keys_foldl_put hacc') fun key => ?_
  rw [get?_foldl_put h, get?_foldl_put h', hget hms h, hget hperm hacc]

theorem put_perm (hacc : (keys acc).Nodup) (hperm : acc.Perm acc') :
    (put key value acc).Perm (put key value acc') :=
  have hkey : (keys [(key, value)]).Nodup := List.nodup_singleton key
  foldl_put_perm hkey (.refl _) hacc hperm

end Members
end ScopeIndex
