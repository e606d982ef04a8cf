import Mathlib.Data.List.Forall2
import ComponentGlue.Table

set_option autoImplicit false
set_option relaxedAutoImplicit false

namespace ComponentGlue

variable {κ ν : Type}

theorem upsert_eq_append [DecidableEq κ] {k : κ} {v : ν} {l : List (κ × ν)}
    (h : k ∉ l.map Prod.fst) : upsert k v l = l ++ [(k, v)] := by
  induction l with
  | nil => rfl
  | cons e l ih =>
    rw [List.map_cons, List.mem_cons, not_or] at h
    rw [upsert, if_neg fun he => h.1 he.symm, ih h.2, List.cons_append]

theorem upsert_upsert [DecidableEq κ] (k : κ) (v w : ν) (l : List (κ × ν)) :
    upsert k w (upsert k v l) = upsert k w l := by
  induction l with
  | nil => simp [upsert]
  | cons e l ih =>
    by_cases h : e.1 = k
    · simp [upsert, h]
    · simp [upsert, h, ih]

theorem eraseDups_snoc [DecidableEq κ] (l : List κ) (k : κ) :
    (l ++ [k]).eraseDups = if k ∈ l.eraseDups then l.eraseDups else l.eraseDups ++ [k] := by
  rw [List.eraseDups_append]
  by_cases h : k ∈ l <;> simp [List.removeAll, List.eraseDups_cons, h]

theorem filter_eq_singleton {key : ν → κ} {p : ν → Bool} {l : List ν} {a : ν}
    (distinct : (l.map key).Nodup) (ha : a ∈ l) (hp : p a = true)
    (hkey : ∀ b, p b = true → key b = key a) : l.filter p = [a] := by
  induction l with
  | nil => cases ha
  | cons b rest ih =>
    rw [List.map_cons, List.nodup_cons] at distinct
    rcases List.mem_cons.1 ha with rfl | hrest
    · have hnone : rest.filter p = [] := by
        rw [List.filter_eq_nil_iff]
        intro c hc hpc
        exact distinct.1 (hkey c hpc ▸ List.mem_map_of_mem hc)
      rw [List.filter_cons_of_pos hp, hnone]
    · have hb : ¬ p b = true := by
        intro hpb
        exact distinct.1 (hkey b hpb ▸ List.mem_map_of_mem hrest)
      rw [List.filter_cons_of_neg hb]
      exact ih distinct.2 hrest

theorem eq_filter_of_sublist {p : ν → Bool} {l₁ l₂ : List ν} (h : l₁.Sublist l₂)
    (distinct : l₂.Nodup) (hmem : ∀ a ∈ l₂, a ∈ l₁ ↔ p a = true) : l₁ = l₂.filter p := by
  induction h with
  | slnil => rfl
  | cons a hsub ih =>
    rw [List.nodup_cons] at distinct
    have ha : ¬ p a = true := fun hp =>
      distinct.1 (hsub.subset ((hmem a List.mem_cons_self).2 hp))
    rw [List.filter_cons_of_neg ha]
    exact ih distinct.2 fun b hb => hmem b (List.mem_cons_of_mem a hb)
  | cons_cons a hsub ih =>
    rw [List.nodup_cons] at distinct
    rw [List.filter_cons_of_pos ((hmem a List.mem_cons_self).1 List.mem_cons_self), ← ih distinct.2]
    intro b hb
    rw [← hmem b (List.mem_cons_of_mem a hb), List.mem_cons]
    have hne : b ≠ a := fun heq => distinct.1 (heq ▸ hb)
    simp [hne]

theorem eq_of_sublist {l₁ l₂ l : List ν} (h₁ : l₁.Sublist l) (h₂ : l₂.Sublist l)
    (distinct : l.Nodup) (hmem : ∀ a, a ∈ l₁ ↔ a ∈ l₂) : l₁ = l₂ := by
  classical
  have hfilter₁ : l₁ = l.filter fun a => decide (a ∈ l₂) :=
    eq_filter_of_sublist h₁ distinct fun a _ => by rw [decide_eq_true_iff, hmem]
  have hfilter₂ : l₂ = l.filter fun a => decide (a ∈ l₂) :=
    eq_filter_of_sublist h₂ distinct fun a _ => by rw [decide_eq_true_iff]
  exact hfilter₁.trans hfilter₂.symm

theorem filter_flatMap_key [DecidableEq κ] {key : ν → κ} {f : κ → List ν}
    (hkey : ∀ k, ∀ a ∈ f k, key a = k) {keys : List κ} (distinct : keys.Nodup) (k : κ) :
    ((keys.flatMap f).filter fun a => key a = k) = if k ∈ keys then f k else [] := by
  induction keys with
  | nil => rfl
  | cons l keys ih =>
    rw [List.nodup_cons] at distinct
    rw [List.flatMap_cons, List.filter_append, ih distinct.2]
    by_cases hl : l = k
    · subst hl
      have hself : ((f l).filter fun a => key a = l) = f l :=
        List.filter_eq_self.2 fun a ha => decide_eq_true (hkey l a ha)
      rw [hself, if_neg distinct.1, if_pos List.mem_cons_self, List.append_nil]
    · have hnone : ((f l).filter fun a => key a = k) = [] := by
        rw [List.filter_eq_nil_iff]
        intro a ha hk
        exact hl ((hkey l a ha).symm.trans (of_decide_eq_true hk))
      have hmem : k ∈ l :: keys ↔ k ∈ keys := by simp [Ne.symm hl]
      simp only [hnone, List.nil_append, hmem]

namespace Table

theorem ext_entries {s t : Table κ ν} (h : s.entries = t.entries) : s = t := by
  cases s
  cases t
  cases h
  rfl

variable [DecidableEq κ]

@[simp] theorem get?_empty (k : κ) : (empty : Table κ ν).get? k = none := rfl

private theorem find?_upsert (k k' : κ) (v : ν) (l : List (κ × ν)) :
    ((upsert k v l).find? fun e => decide (e.1 = k')).map Prod.snd =
      if k = k' then some v else (l.find? fun e => decide (e.1 = k')).map Prod.snd := by
  induction l with
  | nil => by_cases h : k = k' <;> simp [upsert, h]
  | cons e l ih =>
    by_cases he : e.1 = k
    · by_cases h : k = k' <;> simp [upsert, he, h]
    · by_cases h : e.1 = k'
      · have hk : k ≠ k' := fun hkk => he (h.trans hkk.symm)
        rw [upsert, if_neg he, if_neg hk, List.find?_cons_of_pos (by simpa using h),
          List.find?_cons_of_pos (by simpa using h)]
      · rw [upsert, if_neg he, List.find?_cons_of_neg (by simpa using h), ih,
          List.find?_cons_of_neg (by simpa using h)]

theorem get?_insert (t : Table κ ν) (k k' : κ) (v : ν) :
    (t.insert k v).get? k' = if k = k' then some v else t.get? k' :=
  find?_upsert k k' v t.entries

@[simp] theorem get?_insert_self (t : Table κ ν) (k : κ) (v : ν) :
    (t.insert k v).get? k = some v := by
  rw [get?_insert, if_pos rfl]

theorem get?_insert_of_ne (t : Table κ ν) {k k' : κ} (v : ν) (h : k ≠ k') :
    (t.insert k v).get? k' = t.get? k' := by
  rw [get?_insert, if_neg h]

theorem isSome_get?_insert (t : Table κ ν) (k k' : κ) (v : ν) :
    ((t.insert k v).get? k').isSome = true ↔ (t.get? k').isSome = true ∨ k = k' := by
  rw [get?_insert]
  by_cases h : k = k' <;> simp [h]

private theorem find?_map_modify (k k' : κ) (f : ν → ν) (l : List (κ × ν)) :
    ((l.map fun e => if e.1 = k then (e.1, f e.2) else e).find? fun e => decide (e.1 = k')).map
      Prod.snd =
      if k' = k then ((l.find? fun e => decide (e.1 = k')).map Prod.snd).map f
      else (l.find? fun e => decide (e.1 = k')).map Prod.snd := by
  induction l with
  | nil => simp
  | cons e l ih =>
    by_cases he : e.1 = k'
    · by_cases h : k' = k <;> simp [he, h]
    · have hkey : ¬ (if e.1 = k then (e.1, f e.2) else e).1 = k' := by
        split <;> exact he
      rw [List.map_cons, List.find?_cons_of_neg (by simpa using hkey), ih,
        List.find?_cons_of_neg (by simpa using he)]

theorem get?_modify (t : Table κ ν) (k k' : κ) (f : ν → ν) :
    (t.modify k f).get? k' = if k' = k then (t.get? k').map f else t.get? k' :=
  find?_map_modify k k' f t.entries

theorem modify_modify (t : Table κ ν) (k : κ) (f g : ν → ν) :
    (t.modify k f).modify k g = t.modify k fun v => g (f v) := by
  refine ext_entries ((List.map_map ..).trans (List.map_congr_left fun e _ => ?_))
  by_cases h : e.1 = k <;> simp [h]

private theorem mem_iff_find? {l : List (κ × ν)} (distinct : (l.map Prod.fst).Nodup) (k : κ)
    (v : ν) : (k, v) ∈ l ↔ (l.find? fun e => decide (e.1 = k)).map Prod.snd = some v := by
  induction l with
  | nil => simp
  | cons e l ih =>
    rw [List.map_cons, List.nodup_cons] at distinct
    by_cases he : e.1 = k
    · have hrest : (k, v) ∉ l := fun h => distinct.1 (he ▸ List.mem_map_of_mem h)
      rw [List.find?_cons_of_pos (by simpa using he), List.mem_cons]
      constructor
      · rintro (h | h)
        · exact congrArg some (congrArg Prod.snd h).symm
        · exact absurd h hrest
      · intro h
        exact Or.inl (Prod.ext he.symm (Option.some.inj h).symm)
    · rw [List.find?_cons_of_neg (by simpa using he), List.mem_cons, ← ih distinct.2]
      constructor
      · rintro (h | h)
        · exact absurd (congrArg Prod.fst h).symm he
        · exact h
      · exact Or.inr

theorem mem_entries_iff {t : Table κ ν} {k : κ} {v : ν} :
    (k, v) ∈ t.entries ↔ t.get? k = some v :=
  mem_iff_find? t.nodup k v

theorem modify_congr {t : Table κ ν} {k : κ} {v : ν} (h : t.get? k = some v) {f g : ν → ν}
    (hfg : f v = g v) : t.modify k f = t.modify k g := by
  refine ext_entries (List.map_congr_left fun e he => ?_)
  by_cases hk : e.1 = k
  · have hv : e.2 = v := Option.some.inj ((mem_entries_iff.1 (hk ▸ he)).symm.trans h)
    simp [hk, hv, hfg]
  · rw [if_neg hk, if_neg hk]

theorem modify_eq_self {t : Table κ ν} {k : κ} {v : ν} (h : t.get? k = some v) :
    (t.modify k fun _ => v) = t := by
  have hid : t.modify k id = t := by
    refine ext_entries ((List.map_congr_left fun e _ => ?_).trans (List.map_id _))
    exact ite_self e
  have hcongr : (t.modify k fun _ => v) = t.modify k id := modify_congr h rfl
  exact hcongr.trans hid

theorem mem_keys_iff {t : Table κ ν} {k : κ} : k ∈ t.keys ↔ (t.get? k).isSome = true := by
  rw [Option.isSome_iff_exists]
  constructor
  · intro h
    obtain ⟨⟨k', v⟩, he, rfl⟩ := List.mem_map.1 h
    exact ⟨v, mem_entries_iff.1 he⟩
  · rintro ⟨v, hv⟩
    exact List.mem_map.2 ⟨(k, v), mem_entries_iff.2 hv, rfl⟩

theorem mem_keys_foldl_insert {α : Type} (key : α → κ) (v : ν) (l : List α) (t : Table κ ν) (k : κ) :
    k ∈ (l.foldl (fun t a => t.insert (key a) v) t).keys ↔ k ∈ t.keys ∨ ∃ a ∈ l, key a = k := by
  induction l generalizing t with
  | nil => simp
  | cons a l ih =>
    rw [List.foldl_cons, ih, mem_keys_iff, isSome_get?_insert, ← mem_keys_iff, or_assoc,
      List.exists_mem_cons_iff]

theorem get?_eq_none_iff {t : Table κ ν} {k : κ} : t.get? k = none ↔ k ∉ t.keys := by
  rw [mem_keys_iff]
  cases t.get? k <;> simp

theorem entries_eq_map_keys (t : Table κ ν) (default : ν) :
    t.entries = t.keys.map fun k => (k, (t.get? k).getD default) := by
  rw [keys, List.map_map]
  refine (List.map_id t.entries).symm.trans (List.map_congr_left fun e he => ?_)
  rw [Function.comp_apply, mem_entries_iff.1 he, Option.getD_some, id_eq]

theorem values_eq_map_keys (t : Table κ ν) (default : ν) :
    t.values = t.keys.map fun k => (t.get? k).getD default := by
  rw [values, t.entries_eq_map_keys default, List.map_map]
  rfl

theorem insert_insert (t : Table κ ν) (k : κ) (v w : ν) :
    (t.insert k v).insert k w = t.insert k w :=
  ext_entries (upsert_upsert k v w t.entries)

theorem entries_insert_of_notMem {t : Table κ ν} {k : κ} (v : ν) (h : k ∉ t.keys) :
    (t.insert k v).entries = t.entries ++ [(k, v)] :=
  upsert_eq_append h

theorem keys_modify (t : Table κ ν) (k : κ) (f : ν → ν) : (t.modify k f).keys = t.keys := by
  unfold keys modify
  rw [List.map_map]
  refine List.map_congr_left fun e _ => ?_
  rw [Function.comp_apply]
  split <;> rfl

theorem forall₂_values {α : Type} {t : Table κ ν} {l : List α} {key : α → κ} {R : α → ν → Prop}
    (hkeys : t.keys = l.map key) (hvalues : ∀ x ∈ l, ∃ v, t.get? (key x) = some v ∧ R x v) :
    List.Forall₂ R l t.values := by
  have hfirst : List.Forall₂ (fun x e => key x = e.1) l t.entries := by
    have heq : List.Forall₂ (fun k k' => k = k') (l.map key) (t.entries.map Prod.fst) := by
      rw [List.forall₂_eq_eq_eq]
      exact hkeys.symm
    rwa [List.forall₂_map_left_iff, List.forall₂_map_right_iff] at heq
  rw [List.forall₂_iff_zip] at hfirst
  rw [values, List.forall₂_map_right_iff, List.forall₂_iff_zip]
  refine ⟨hfirst.1, fun {x e} hmem => ?_⟩
  obtain ⟨hx, he⟩ := List.of_mem_zip hmem
  obtain ⟨v, hv, hR⟩ := hvalues x hx
  rw [hfirst.2 hmem, mem_entries_iff.1 he] at hv
  exact Option.some.inj hv ▸ hR

end Table

end ComponentGlue
