import Mathlib.Data.List.Nodup

/-!
# Keyed lists

Tables kept as lists and searched by a key: the first element with the key is
found, replaced in place, or a new element is appended when there is none.  The
lemmas relate these three operations to the list of keys and to lookups, so
that a table can be reasoned about one key at a time.
-/

namespace DartSync
namespace Foundation

universe u v w

variable {α : Type u} {κ : Type v} [DecidableEq κ]

def lookup (key : α -> κ) (k : κ) (l : List α) : Option α :=
  l.find? (fun a => key a = k)

def upsert (key : α -> κ) (k : κ) (found : α -> α) (absent : α) :
    List α -> List α
  | [] => [absent]
  | a :: rest =>
      if key a = k then found a :: rest
      else a :: upsert key k found absent rest

def modifyFirst (key : α -> κ) (k : κ) (found : α -> α) : List α -> List α
  | [] => []
  | a :: rest =>
      if key a = k then found a :: rest
      else a :: modifyFirst key k found rest

variable {key : α -> κ} {k k' : κ} {found : α -> α} {absent a : α} {l : List α}

@[simp] theorem lookup_nil : lookup key k [] = none := rfl

theorem lookup_cons (a : α) (l : List α) :
    lookup key k (a :: l) = if key a = k then some a else lookup key k l := by
  by_cases h : key a = k
  · simp [lookup, h]
  · simp [lookup, h]

theorem lookup_append (l l' : List α) :
    lookup key k (l ++ l') = (lookup key k l).or (lookup key k l') := by
  simp [lookup]

theorem lookup_map {g : α -> α} (hg : forall a, key (g a) = key a) :
    lookup key k (l.map g) = (lookup key k l).map g := by
  induction l with
  | nil => rfl
  | cons a rest ih =>
      rw [List.map_cons, lookup_cons, lookup_cons, hg, ih]
      split <;> rfl

theorem key_of_lookup (h : lookup key k l = some a) : key a = k := by
  simpa using List.find?_some h

theorem mem_of_lookup (h : lookup key k l = some a) : a ∈ l :=
  List.mem_of_find?_eq_some h

theorem lookup_eq_none_iff :
    lookup key k l = none <-> k ∉ l.map key := by
  simp [lookup]

theorem lookup_of_mem (hl : (l.map key).Nodup) (ha : a ∈ l) :
    lookup key (key a) l = some a := by
  induction l with
  | nil => cases ha
  | cons b rest ih =>
      rw [List.map_cons, List.nodup_cons] at hl
      rw [lookup_cons]
      cases ha with
      | head => rw [if_pos rfl]
      | tail _ ha =>
          rw [if_neg]
          · exact ih hl.right ha
          · intro hkey
            exact hl.left (hkey ▸ List.mem_map_of_mem ha)

theorem filter_key_eq_lookup (hl : (l.map key).Nodup) (k : κ) :
    l.filter (fun a => key a = k) = (lookup key k l).toList := by
  induction l with
  | nil => rfl
  | cons a rest ih =>
      rw [List.map_cons, List.nodup_cons] at hl
      rw [lookup_cons]
      by_cases h : key a = k
      · have hrest : lookup key k rest = none :=
          lookup_eq_none_iff.mpr (h ▸ hl.left)
        have hfilter := ih hl.right
        rw [hrest] at hfilter
        simpa [h] using hfilter
      · simpa [h] using ih hl.right

/-!
## Upsert
-/

theorem lookup_upsert_self (hfound : forall a, key a = k -> key (found a) = k)
    (habsent : key absent = k) :
    lookup key k (upsert key k found absent l) =
      some (((lookup key k l).map found).getD absent) := by
  induction l with
  | nil => simp [upsert, lookup, habsent]
  | cons a rest ih =>
      by_cases h : key a = k
      · simp [upsert, lookup_cons, h, hfound a h]
      · simp [upsert, lookup_cons, h, ih]

theorem lookup_upsert_of_ne
    (hfound : forall a, key a = k -> key (found a) = k)
    (habsent : key absent = k) (hne : k' ≠ k) :
    lookup key k' (upsert key k found absent l) = lookup key k' l := by
  induction l with
  | nil => simp [upsert, lookup, habsent, hne.symm]
  | cons a rest ih =>
      by_cases h : key a = k
      · simp [upsert, lookup_cons, h, hfound a h, hne.symm]
      · simp [upsert, lookup_cons, h, ih]

theorem keys_upsert (hfound : forall a, key a = k -> key (found a) = k)
    (habsent : key absent = k) :
    (upsert key k found absent l).map key =
      if k ∈ l.map key then l.map key else l.map key ++ [k] := by
  induction l with
  | nil => simp [upsert, habsent]
  | cons a rest ih =>
      by_cases h : key a = k
      · simp [upsert, h, hfound a h]
      · by_cases hmem : k ∈ rest.map key
        · rw [if_pos hmem] at ih
          have hmem' : k ∈ (a :: rest).map key := List.mem_cons_of_mem _ hmem
          rw [if_pos hmem']
          simp only [upsert, if_neg h, List.map_cons, ih]
        · rw [if_neg hmem] at ih
          have hmem' : k ∉ (a :: rest).map key := by
            rw [List.map_cons, List.mem_cons]
            exact not_or.mpr ⟨Ne.symm h, hmem⟩
          rw [if_neg hmem']
          simp only [upsert, if_neg h, List.map_cons, ih, List.cons_append]

omit [DecidableEq κ] in
theorem nodup_concat {ks : List κ} (h : ks.Nodup) (hk : k ∉ ks) :
    (ks ++ [k]).Nodup := by
  refine List.nodup_append.mpr ⟨h, List.nodup_singleton k, ?_⟩
  intro x hx y hy hxy
  rw [List.mem_singleton] at hy
  exact hk (hy ▸ hxy ▸ hx)

theorem nodup_keys_upsert
    (hfound : forall a, key a = k -> key (found a) = k)
    (habsent : key absent = k) (hl : (l.map key).Nodup) :
    ((upsert key k found absent l).map key).Nodup := by
  rw [keys_upsert hfound habsent]
  split
  · exact hl
  · next hmem => exact nodup_concat hl hmem

theorem mem_upsert {b : α} (hb : b ∈ upsert key k found absent l) :
    b ∈ l ∨ (exists a, a ∈ l ∧ key a = k ∧ b = found a) ∨ b = absent := by
  induction l with
  | nil => simpa [upsert] using hb
  | cons a rest ih =>
      by_cases h : key a = k
      · simp only [upsert, if_pos h, List.mem_cons] at hb
        rcases hb with hb | hb
        · exact Or.inr (Or.inl ⟨a, List.mem_cons_self, h, hb⟩)
        · exact Or.inl (List.mem_cons_of_mem a hb)
      · simp only [upsert, if_neg h, List.mem_cons] at hb
        rcases hb with hb | hb
        · exact Or.inl (hb ▸ List.mem_cons_self)
        · rcases ih hb with hmem | ⟨c, hc, hkey, hbc⟩ | habs
          · exact Or.inl (List.mem_cons_of_mem a hmem)
          · exact Or.inr (Or.inl ⟨c, List.mem_cons_of_mem a hc, hkey, hbc⟩)
          · exact Or.inr (Or.inr habs)

/-!
## Replacing the first match
-/

theorem lookup_modifyFirst_self
    (hfound : forall a, key a = k -> key (found a) = k) :
    lookup key k (modifyFirst key k found l) =
      (lookup key k l).map found := by
  induction l with
  | nil => rfl
  | cons a rest ih =>
      by_cases h : key a = k
      · simp [modifyFirst, lookup_cons, h, hfound a h]
      · simp [modifyFirst, lookup_cons, h, ih]

theorem lookup_modifyFirst_of_ne
    (hfound : forall a, key a = k -> key (found a) = k) (hne : k' ≠ k) :
    lookup key k' (modifyFirst key k found l) = lookup key k' l := by
  induction l with
  | nil => rfl
  | cons a rest ih =>
      by_cases h : key a = k
      · simp [modifyFirst, lookup_cons, h, hfound a h, hne.symm]
      · simp [modifyFirst, lookup_cons, h, ih]

theorem map_modifyFirst {β : Type w} {g : α -> β}
    (hfound : forall a, key a = k -> g (found a) = g a) :
    (modifyFirst key k found l).map g = l.map g := by
  induction l with
  | nil => rfl
  | cons a rest ih =>
      by_cases h : key a = k
      · simp [modifyFirst, h, hfound a h]
      · simp [modifyFirst, h, ih]

theorem keys_modifyFirst
    (hfound : forall a, key a = k -> key (found a) = k) :
    (modifyFirst key k found l).map key = l.map key :=
  map_modifyFirst fun a ha => (hfound a ha).trans ha.symm

theorem mem_modifyFirst {b : α} (hb : b ∈ modifyFirst key k found l) :
    b ∈ l ∨ exists a, a ∈ l ∧ b = found a := by
  induction l with
  | nil => cases hb
  | cons a rest ih =>
      by_cases h : key a = k
      · simp only [modifyFirst, if_pos h, List.mem_cons] at hb
        rcases hb with hb | hb
        · exact Or.inr ⟨a, List.mem_cons_self, hb⟩
        · exact Or.inl (List.mem_cons_of_mem a hb)
      · simp only [modifyFirst, if_neg h, List.mem_cons] at hb
        rcases hb with hb | hb
        · exact Or.inl (hb ▸ List.mem_cons_self)
        · rcases ih hb with hmem | ⟨c, hc, hbc⟩
          · exact Or.inl (List.mem_cons_of_mem a hmem)
          · exact Or.inr ⟨c, List.mem_cons_of_mem a hc, hbc⟩

/-!
## The first element with a key
-/

omit [DecidableEq κ] in
theorem exists_first_of_mem_keys (h : k ∈ l.map key) :
    exists pre a post, l = pre ++ a :: post ∧ key a = k ∧
      k ∉ pre.map key := by
  induction l with
  | nil => cases h
  | cons a rest ih =>
      cases Classical.em (key a = k) with
      | inl heq => exact ⟨[], a, rest, rfl, heq, List.not_mem_nil⟩
      | inr hne =>
          rw [List.map_cons, List.mem_cons] at h
          rcases h with h | h
          · exact absurd h.symm hne
          · rcases ih h with ⟨pre, b, post, rfl, hb, hpre⟩
            refine ⟨a :: pre, b, post, rfl, hb, ?_⟩
            rw [List.map_cons, List.mem_cons, not_or]
            exact ⟨Ne.symm hne, hpre⟩

theorem modifyFirst_of_first {pre post : List α} (hpre : k ∉ pre.map key)
    (ha : key a = k) :
    modifyFirst key k found (pre ++ a :: post) = pre ++ found a :: post := by
  induction pre with
  | nil => simp [modifyFirst, ha]
  | cons b rest ih =>
      rw [List.map_cons, List.mem_cons, not_or] at hpre
      rw [List.cons_append, modifyFirst, if_neg (Ne.symm hpre.left),
        ih hpre.right]
      rfl

theorem modifyFirst_of_notMem (h : k ∉ l.map key) :
    modifyFirst key k found l = l := by
  induction l with
  | nil => rfl
  | cons b rest ih =>
      rw [List.map_cons, List.mem_cons, not_or] at h
      rw [modifyFirst, if_neg (Ne.symm h.left), ih h.right]

theorem filter_key_ne_of_notMem (h : k ∉ l.map key) :
    l.filter (fun a => key a ≠ k) = l := by
  rw [List.filter_eq_self]
  intro a ha
  apply decide_eq_true
  intro heq
  exact h (heq ▸ List.mem_map_of_mem ha)

theorem filter_key_ne_of_split {pre post : List α}
    (hl : ((pre ++ a :: post).map key).Nodup) (ha : key a = k) :
    (pre ++ a :: post).filter (fun a => key a ≠ k) = pre ++ post := by
  rw [List.map_append, List.map_cons, List.nodup_append, List.nodup_cons,
    ha] at hl
  have hpre : k ∉ pre.map key := fun hk =>
    hl.right.right k hk k List.mem_cons_self rfl
  rw [List.filter_append, filter_key_ne_of_notMem hpre, List.filter_cons,
    if_neg (by simpa using ha), filter_key_ne_of_notMem hl.right.left.left]

end Foundation
end DartSync
