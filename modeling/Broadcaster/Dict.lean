import Mathlib.Data.List.Nodup

/-!
# Dictionaries

A dictionary that iterates in the order of insertion: a key that is set again
keeps its place, unlike `AList.insert`, which moves it to the front.
-/

namespace Broadcaster

structure Dict (K V : Type) where
  entries : List (K × V)
  nodup : (entries.map Prod.fst).Nodup

namespace Dict

variable {K V : Type} [DecidableEq K]

def empty : Dict K V := ⟨[],List.nodup_nil⟩

def get (d : Dict K V) (k : K) : Option V := d.entries.lookup k

def keys (d : Dict K V) : List K := d.entries.map Prod.fst

def values (d : Dict K V) : List V := d.entries.map Prod.snd

def setEntry (k : K) (v : V) : List (K × V) → List (K × V)
  | [] => [(k,v)]
  | e::es => if e.1 = k then (k,v)::es else e::setEntry k v es

theorem lookup_entries (e : K × V) (es : List (K × V)) (k : K) :
    (e::es).lookup k = if k = e.1 then some e.2 else es.lookup k := by
  rw [List.lookup_cons]
  by_cases hk : k = e.1
  · rw [if_pos hk,beq_iff_eq.mpr hk]
  · rw [if_neg hk,beq_eq_false_iff_ne.mpr hk]

theorem keys_setEntry (k : K) (v : V) (es : List (K × V)) :
    (setEntry k v es).map Prod.fst = if k ∈ es.map Prod.fst then es.map Prod.fst else es.map Prod.fst ++ [k] := by
  induction es with
  | nil => rfl
  | cons e es ih =>
    by_cases he : e.1 = k
    · simp [setEntry,he]
    · have hne : k ≠ e.1 := fun h => he h.symm
      simp only [setEntry,he,if_false,List.map_cons,ih,List.mem_cons,hne,false_or]
      split
      · rfl
      · rfl

theorem lookup_setEntry (k k' : K) (v : V) (es : List (K × V)) :
    (setEntry k v es).lookup k' = if k' = k then some v else es.lookup k' := by
  induction es with
  | nil => exact lookup_entries (k,v) [] k'
  | cons e es ih =>
    rw [lookup_entries e es]
    by_cases he : e.1 = k
    · rw [setEntry,if_pos he,lookup_entries,he]
      split
      · rfl
      · rfl
    · rw [setEntry,if_neg he,lookup_entries,ih]
      by_cases hk : k' = e.1
      · have hne : k' ≠ k := fun h => he (hk.symm.trans h)
        rw [if_pos hk,if_neg hne,if_pos hk]
      · rw [if_neg hk,if_neg hk]

/-- `d[k] = v` -/
def set (d : Dict K V) (k : K) (v : V) : Dict K V where
  entries := setEntry k v d.entries
  nodup := by
    rw [keys_setEntry]
    split
    · exact d.nodup
    · rename_i hk
      exact d.nodup.append (List.nodup_singleton k) (List.disjoint_singleton.mpr hk)

/-- `d.update(e)` -/
def update (d e : Dict K V) : Dict K V := e.entries.foldl (fun d p => d.set p.1 p.2) d

theorem get_set (d : Dict K V) (k k' : K) (v : V) :
    (d.set k v).get k' = if k' = k then some v else d.get k' :=
  lookup_setEntry k k' v d.entries

theorem get_update (d e : Dict K V) (k : K) : (d.update e).get k = (e.get k).or (d.get k) := by
  obtain ⟨es,hes⟩ := e
  unfold update get
  simp only
  induction es generalizing d with
  | nil => rfl
  | cons p es ih =>
    obtain ⟨hp,hes⟩ := List.nodup_cons.mp hes
    have hset : (d.set p.1 p.2).entries.lookup k = if k = p.1 then some p.2 else d.entries.lookup k :=
      get_set d p.1 k p.2
    rw [List.foldl_cons,ih _ hes,hset,lookup_entries]
    by_cases hk : k = p.1
    · have hnone : es.lookup k = none := by
        rw [List.lookup_eq_none_iff]
        intro q hq
        rw [hk,bne_iff_ne]
        exact fun h => hp (h ▸ List.mem_map_of_mem hq)
      rw [if_pos hk,if_pos hk,hnone]
      rfl
    · rw [if_neg hk,if_neg hk]

theorem get_eq_some (d : Dict K V) {k : K} {v : V} : d.get k = some v ↔ (k,v) ∈ d.entries := by
  obtain ⟨es,hes⟩ := d
  unfold get
  simp only
  induction es with
  | nil => simp
  | cons p es ih =>
    obtain ⟨hp,hes⟩ := List.nodup_cons.mp hes
    have ih := ih hes
    rw [lookup_entries,List.mem_cons,← ih,Prod.ext_iff]
    by_cases hk : k = p.1
    · have hnone : es.lookup k ≠ some v := fun h => hp (hk ▸ List.mem_map_of_mem (f := Prod.fst) (ih.mp h))
      simp [hk,hk ▸ hnone,eq_comm]
    · simp [hk]

theorem mem_values (d : Dict K V) {v : V} : v ∈ d.values ↔ ∃ k, d.get k = some v := by
  unfold values
  rw [List.mem_map]
  constructor
  · rintro ⟨⟨k,_⟩,hmem,rfl⟩
    exact ⟨k,d.get_eq_some.mpr hmem⟩
  · rintro ⟨k,hk⟩
    exact ⟨(k,v),d.get_eq_some.mp hk,rfl⟩

theorem nodup_values (d : Dict K V) {f : V → K} (h : ∀ k v, d.get k = some v → f v = k) :
    (d.values.map f).Nodup := by
  have hkeys : d.values.map f = d.keys := by
    unfold values keys
    rw [List.map_map]
    refine List.map_congr_left ?_
    rintro ⟨k,v⟩ hmem
    exact h k v (d.get_eq_some.mpr hmem)
  rw [hkeys]
  exact d.nodup

end Dict
end Broadcaster
