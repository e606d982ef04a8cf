set_option autoImplicit false
set_option relaxedAutoImplicit false

namespace ComponentGlue

variable {κ ν : Type}

def upsert [DecidableEq κ] (k : κ) (v : ν) : List (κ × ν) → List (κ × ν)
  | [] => [(k, v)]
  | e :: l => if e.1 = k then (k, v) :: l else e :: upsert k v l

theorem keys_upsert [DecidableEq κ] (k : κ) (v : ν) (l : List (κ × ν)) :
    (upsert k v l).map Prod.fst =
      if k ∈ l.map Prod.fst then l.map Prod.fst else l.map Prod.fst ++ [k] := by
  induction l with
  | nil => simp [upsert]
  | cons e l ih =>
    by_cases h : e.1 = k
    · simp [upsert, h]
    · by_cases hk : k ∈ l.map Prod.fst
      · rw [if_pos hk] at ih
        simp [upsert, h, ih, hk]
      · rw [if_neg hk] at ih
        simp [upsert, h, ih, hk, Ne.symm h]

/-- Pairs with distinct keys, in the order in which the keys first appeared. -/
structure Table (κ ν : Type) where
  entries : List (κ × ν)
  nodup : (entries.map Prod.fst).Nodup

namespace Table

def empty : Table κ ν := ⟨[], List.nodup_nil⟩

instance : EmptyCollection (Table κ ν) := ⟨empty⟩

instance : Inhabited (Table κ ν) := ⟨empty⟩

def keys (t : Table κ ν) : List κ := t.entries.map Prod.fst

def values (t : Table κ ν) : List ν := t.entries.map Prod.snd

def size (t : Table κ ν) : Nat := t.entries.length

def isEmpty (t : Table κ ν) : Bool := t.entries.isEmpty

variable [DecidableEq κ]

def get? (t : Table κ ν) (k : κ) : Option ν :=
  (t.entries.find? (fun e => decide (e.1 = k))).map Prod.snd

def contains (t : Table κ ν) (k : κ) : Bool := (t.get? k).isSome

/-- Write `v` at `k`, at the end when `k` is new. -/
def insert (t : Table κ ν) (k : κ) (v : ν) : Table κ ν where
  entries := upsert k v t.entries
  nodup := by
    rw [keys_upsert]
    split
    · exact t.nodup
    · next h =>
      rw [List.nodup_append]
      refine ⟨t.nodup, by simp, ?_⟩
      intro a ha b hb hab
      rw [List.mem_singleton.1 hb] at hab
      exact h (hab ▸ ha)

/-- Change the value at `k`, if there is one. -/
def modify (t : Table κ ν) (k : κ) (f : ν → ν) : Table κ ν where
  entries := t.entries.map fun e => if e.1 = k then (e.1, f e.2) else e
  nodup := by
    have h : ∀ e : κ × ν, (if e.1 = k then (e.1, f e.2) else e).1 = e.1 := by
      intro e
      split <;> rfl
    have hm : (t.entries.map fun e => if e.1 = k then (e.1, f e.2) else e).map Prod.fst =
        t.entries.map Prod.fst := by
      rw [List.map_map]
      exact List.map_congr_left fun e _ => h e
    rw [hm]
    exact t.nodup

def erase (t : Table κ ν) (k : κ) : Table κ ν where
  entries := t.entries.filter fun e => decide (e.1 ≠ k)
  nodup := List.Nodup.sublist (List.Sublist.map _ List.filter_sublist) t.nodup

def ofList (l : List (κ × ν)) : Table κ ν := l.foldl (fun t e => t.insert e.1 e.2) empty

theorem keys_insert (t : Table κ ν) (k : κ) (v : ν) :
    (t.insert k v).keys = if k ∈ t.keys then t.keys else t.keys ++ [k] :=
  keys_upsert k v t.entries

end Table

end ComponentGlue
